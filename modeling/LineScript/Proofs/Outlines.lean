import LineScript.Program
import LineScript.Proofs.Labels
import LineScript.Proofs.LoopNames
import LineScript.Proofs.Rendering
import Mathlib.Data.List.Nodup
import Mathlib.Logic.Relation

/-!
# Headings of an outline

The outline of a block gives each block below it a heading. `rowsWithin` lists these blocks in the
order of the outline, each with its depth. The outline follows the blocks that stand in the place of
an element and the handlers of evaluations, and no others, so a compiled script shows a block unless
it lies within the handler of a signal.
-/
namespace LineScript

open Text Relation

namespace Text

/-- A line that starts with a number sign behind its blanks, with the number of these blanks. -/
def heading? (line : String) : Option (Nat × String) :=
  let rest := line.toList.dropWhile (· == ' ')
  if rest.head? = some '#' then
    some ((line.toList.takeWhile (· == ' ')).length, String.ofList rest)
  else none

def headings (t : String) : List (Nat × String) :=
  (splitLines t).filterMap heading?

theorem splitLines_append {line : String} (h : OneLine line) (back : String) :
    splitLines (line ++ "\n" ++ back) = line :: splitLines back := by
  have hlist : (line ++ "\n" ++ back).toList = line.toList ++ '\n' :: back.toList := by simp
  have hline : ∀ c ∈ line.toList, (c == '\n') = false := by
    intro c hc
    rw [beq_eq_false_iff_ne]
    rintro rfl
    exact h hc
  have hsplit : (line.toList ++ '\n' :: back.toList).splitOn '\n' =
      line.toList :: back.toList.splitOn '\n' :=
    List.splitOnP_append_cons_of_forall_mem hline _ (beq_self_eq_true '\n') _
  rw [splitLines, hlist, hsplit, List.map_cons, String.ofList_toList]
  rfl

theorem oneLine_repeated (n : Nat) : OneLine (repeated n ' ') := by
  intro hmem
  rw [repeated, String.toList_ofList] at hmem
  cases List.eq_of_mem_replicate hmem

theorem heading?_repeated (n : Nat) {label : String} {c : Char}
    (hc : label.toList.head? = some c) (hspace : c ≠ ' ') :
    heading? (repeated n ' ' ++ label) = if c = '#' then some (n, label) else none := by
  obtain ⟨rest, hrest⟩ := List.head?_eq_some_iff.mp hc
  have hlist : (repeated n ' ' ++ label).toList = List.replicate n ' ' ++ c :: rest := by
    rw [String.toList_append, repeated, String.toList_ofList, hrest]
  have hblank : ∀ d ∈ List.replicate n ' ', (d == ' ') = true := by
    intro d hd
    rw [List.eq_of_mem_replicate hd]
    rfl
  have hsolid : (c == ' ') = false := beq_eq_false_iff_ne.mpr hspace
  have hdrop : (List.replicate n ' ' ++ c :: rest).dropWhile (· == ' ') = c :: rest := by
    rw [List.dropWhile_append_of_pos hblank, List.dropWhile_cons_of_neg (by simp [hsolid])]
  have htake : (List.replicate n ' ' ++ c :: rest).takeWhile (· == ' ') =
      List.replicate n ' ' := by
    rw [List.takeWhile_append_of_pos hblank, List.takeWhile_cons_of_neg (by simp [hsolid]),
      List.append_nil]
  have hlabel : String.ofList (c :: rest) = label := by rw [← hrest, String.ofList_toList]
  rw [heading?, hlist]
  simp only [hdrop, htake, hlabel, List.head?_cons, Option.some.injEq, List.length_replicate]

theorem head?_append {t : String} {c : Char} (h : t.toList.head? = some c) (u : String) :
    (t ++ u).toList.head? = some c := by
  rw [String.toList_append, List.head?_append, h]
  rfl

theorem headings_indented (depth : Nat) {label : String} {c : Char} (h : OneLine label)
    (hc : label.toList.head? = some c) (hspace : c ≠ ' ') (back : String) :
    headings (indented depth label ++ back) =
      if c = '#' then (2 * depth, label) :: headings back else headings back := by
  have hline := (oneLine_repeated (2 * depth)).append h
  rw [headings, indented, splitLines_append hline, List.filterMap_cons,
    heading?_repeated _ hc hspace]
  by_cases hsign : c = '#'
  · rw [if_pos hsign, if_pos hsign]
    rfl
  · rw [if_neg hsign, if_neg hsign]
    rfl

end Text

/-- The line that the outline starts the block with. -/
def Block.heading (block : Block) (id : BlockId) : String :=
  let closed := if block.closed then " closed" else ""
  s!"#{id} {block.kind.label}{closed}"

theorem Block.toList_heading (block : Block) (id : BlockId) :
    ∃ rest, (block.heading id).toList = '#' :: ((toString id).toList ++ ' ' :: rest) := by
  refine ⟨(block.kind.label ++ if block.closed then " closed" else "").toList, ?_⟩
  have hheading : block.heading id = "#" ++ toString id ++ " " ++ block.kind.label ++
      (if block.closed then " closed" else "") := rfl
  simp [hheading]

theorem Block.oneLine_heading (block : Block) (id : BlockId) : OneLine (block.heading id) := by
  have hsign : OneLine "#" := by decide
  have hspace : OneLine " " := by decide
  have hlabel : OneLine block.kind.label := by
    unfold BlockKind.label
    split <;> decide
  have hclosed : OneLine (if block.closed then " closed" else "") := by
    cases block.closed <;> decide
  exact ((((hsign.append (oneLine_toString id)).append hspace).append hlabel).append hclosed)

theorem Block.heading_injective {block other : Block} {a b : BlockId}
    (h : block.heading a = other.heading b) : a = b := by
  obtain ⟨rest, hrest⟩ := block.toList_heading a
  obtain ⟨rest', hrest'⟩ := other.toList_heading b
  have hdigits (n : Nat) (tail : List Char) :
      ((toString n).toList ++ ' ' :: tail).takeWhile continuesName = (toString n).toList := by
    rw [List.takeWhile_append_of_pos (continuesName_toString n),
      List.takeWhile_cons_of_neg (by decide), List.append_nil]
  rw [h, hrest'] at hrest
  have htake := congrArg (fun line => line.tail.takeWhile continuesName) hrest
  simp only [List.tail_cons, hdigits] at htake
  exact numbered_injective "" (by rw [String.toList_inj.mp htake.symm])

/-- The label of an element that is not a block starts with a letter. -/
theorem Element.head?_label {e : Element} (h : ∀ child, e ≠ .block child) :
    ∃ c, (Store.elementLabel e).toList.head? = some c ∧ c ≠ ' ' ∧ c ≠ '#' := by
  cases e with
  | block child => exact absurd rfl (h child)
  | text _ => exact ⟨'t', head?_append rfl _, by decide, by decide⟩
  | value _ =>
    exact ⟨'v', head?_append (head?_append (head?_append rfl _) _) _, by decide, by decide⟩
  | method _ =>
    exact ⟨'c', head?_append (head?_append (head?_append rfl _) _) _, by decide, by decide⟩
  | statement content =>
    cases content with
    | dependency _ => exact ⟨'u', head?_append rfl _, by decide, by decide⟩
    | binding _ => exact ⟨'b', head?_append (head?_append rfl _) _, by decide, by decide⟩
    | giveBack _ => exact ⟨'r', head?_append rfl _, by decide, by decide⟩
    | print _ => exact ⟨'p', (rfl : "print".toList.head? = some 'p'), by decide, by decide⟩
    | assign _ => exact ⟨'a', head?_append rfl _, by decide, by decide⟩
    | signal _ _ =>
      exact ⟨'s', head?_append (head?_append (head?_append rfl _) _) _, by decide, by decide⟩
    | exit _ => exact ⟨'e', head?_append rfl _, by decide, by decide⟩
    | package _ => exact ⟨'p', head?_append rfl _, by decide, by decide⟩

/-- The block that stands in the place of the element. -/
def Element.inPlace? : Element → Option BlockId
  | .block child => some child
  | _ => none

/-- The routine that the element installs as a handler. -/
def Element.installs? : Element → Option BlockId
  | .statement (.signal _ routine) => some routine
  | _ => none

/-- The blocks that the outline shows right below a block, with the steps down to them. The handler
of an evaluation stands under a line of its own. -/
def Block.shown (block : Block) : List (Nat × BlockId) :=
  block.kind.companion.toList.map (2, ·) ++
    (block.elements.filterMap Element.inPlace?).map (1, ·)

theorem Block.one_le_of_mem_shown {block : Block} {link : Nat × BlockId}
    (h : link ∈ block.shown) : 1 ≤ link.1 := by
  rcases List.mem_append.mp h with h | h
  · obtain ⟨_, _, rfl⟩ := List.mem_map.mp h
    exact Nat.le_succ 1
  · obtain ⟨_, _, rfl⟩ := List.mem_map.mp h
    exact Nat.le_refl 1

theorem Block.pairwise_shown (block : Block) :
    block.shown.Pairwise fun earlier later => later.1 ≤ earlier.1 := by
  rw [shown, List.pairwise_append, List.pairwise_map, List.pairwise_map]
  refine ⟨?_, List.pairwise_of_forall fun _ _ => Nat.le_refl 1, ?_⟩
  · cases block.kind.companion <;> simp
  · intro earlier hearlier later hlater
    obtain ⟨_, _, rfl⟩ := List.mem_map.mp hearlier
    obtain ⟨_, _, rfl⟩ := List.mem_map.mp hlater
    exact Nat.le_succ 1

/-- A block is held in one of two ways. -/
theorem Block.count_children (block : Block) (c : BlockId) :
    block.children.count c = (block.shown.map Prod.snd).count c +
      (block.elements.filterMap Element.installs?).count c := by
  have helements (es : List Element) : (es.filterMap Element.child?).count c =
      (es.filterMap Element.inPlace?).count c + (es.filterMap Element.installs?).count c := by
    induction es with
    | nil => rfl
    | cons e rest ih =>
      cases e with
      | text _ | value _ | method _ => exact ih
      | block child =>
        simp only [List.filterMap_cons, Element.child?, Element.inPlace?, Element.installs?,
          List.count_cons, ih]
        omega
      | statement content =>
        cases content with
        | signal _ routine =>
          simp only [List.filterMap_cons, Element.child?, Element.inPlace?, Element.installs?,
            List.count_cons, ih]
          omega
        | dependency _ | binding _ | giveBack _ | print _ | assign _ | exit _ | package _ =>
          exact ih
  have hshown : block.shown.map Prod.snd =
      block.kind.companion.toList ++ block.elements.filterMap Element.inPlace? := by
    simp [shown, Function.comp_def]
  rw [children, hshown, List.count_append, List.count_append, helements]
  omega

theorem Block.mem_children_of_mem_shown {block : Block} {link : Nat × BlockId}
    (h : link ∈ block.shown) : link.2 ∈ block.children := by
  have hpos : 0 < (block.shown.map Prod.snd).count link.2 :=
    List.count_pos_iff.mpr (List.mem_map_of_mem h)
  rw [← List.count_pos_iff, block.count_children]
  omega

namespace Store

variable (s : Store)

/-- The blocks that the outline of a block shows, in its order and with their depths. -/
def rowsWithin : Nat → Nat → BlockId → List (Nat × BlockId)
  | 0, _, _ => []
  | bound + 1, depth, id =>
    match s.get? id with
    | none => []
    | some block =>
      (depth, id) :: block.shown.flatMap fun link => rowsWithin bound (depth + link.1) link.2

/-- The heading of a block as the outline writes it. -/
def rowHeading (row : Nat × BlockId) : Nat × String :=
  (2 * row.1, ((s.get? row.2).map fun block => block.heading row.2).getD "")

variable {s} {block : Block} {id : BlockId}

theorem rowsWithin_of_get? (h : s.get? id = some block) (bound depth : Nat) :
    s.rowsWithin (bound + 1) depth id = (depth, id) ::
      block.shown.flatMap fun link => s.rowsWithin bound (depth + link.1) link.2 := by
  rw [rowsWithin, h]

theorem rowHeading_of_get? (h : s.get? id = some block) (depth : Nat) :
    s.rowHeading (depth, id) = (2 * depth, block.heading id) := by
  rw [rowHeading, h]
  rfl

/-- What the outline writes for an element, where it writes the blocks as given. -/
def elementOutline (below : BlockId → String) (depth : Nat) : Element → String
  | .block child => below child
  | other => indented depth (elementLabel other)

theorem outlineWithin_of_get? (h : s.get? id = some block) (bound depth : Nat) :
    s.outlineWithin (bound + 1) depth id = indented depth (block.heading id) ++
      String.join (block.kind.companion.toList.map fun handler =>
        indented (depth + 1) "catch:" ++ s.outlineWithin bound (depth + 2) handler) ++
      String.join (block.elements.map
        (elementOutline (s.outlineWithin bound (depth + 1)) (depth + 1))) := by
  rw [outlineWithin, h]
  refine congrArg₂ (· ++ ·) ?_ (congrArg String.join (List.map_congr_left fun e _ => ?_))
  · cases hkind : block.kind <;> simp [Block.heading, BlockKind.companion, hkind, String.join]
  · cases e <;> rfl

theorem headings_elementOutline {below : BlockId → String} {rows : BlockId → List (Nat × BlockId)}
    (hbelow : ∀ child back, headings (below child ++ back) =
      (rows child).map s.rowHeading ++ headings back) (depth : Nat) {e : Element}
    (h : e.Labelled) (back : String) :
    headings (elementOutline below depth e ++ back) =
      (e.inPlace?.toList.flatMap rows).map s.rowHeading ++ headings back := by
  have hother (hne : ∀ child, e ≠ .block child) :
      headings (indented depth (elementLabel e) ++ back) = headings back := by
    obtain ⟨c, hc, hspace, hsign⟩ := e.head?_label hne
    rw [headings_indented depth h hc hspace, if_neg hsign]
  cases e with
  | block child =>
    rw [elementOutline, hbelow, Element.inPlace?, Option.toList_some, List.flatMap_singleton]
  | text _ | value _ | method _ | statement _ => exact hother (by simp)

/-- A list of texts, each of which has the headings of some rows. -/
theorem headings_join {α : Type} {text : α → String} {rows : α → List (Nat × BlockId)}
    {items : List α} (h : ∀ item ∈ items, ∀ back, headings (text item ++ back) =
      (rows item).map s.rowHeading ++ headings back) (back : String) :
    headings (String.join (items.map text) ++ back) =
      (items.flatMap rows).map s.rowHeading ++ headings back := by
  induction items with
  | nil => rw [List.map_nil, String.join_nil, String.empty_append]; rfl
  | cons item rest ih =>
    rw [List.forall_mem_cons] at h
    rw [List.map_cons, String.join_cons, String.append_assoc, h.1, ih h.2, List.flatMap_cons,
      List.map_append, List.append_assoc]

/-- The headings of an outline are those of the blocks that it shows. -/
theorem headings_outlineWithin (h : ∀ e, s.Stores e → e.Labelled) (bound depth : Nat)
    (id : BlockId) (back : String) :
    headings (s.outlineWithin bound depth id ++ back) =
      (s.rowsWithin bound depth id).map s.rowHeading ++ headings back := by
  induction bound generalizing depth id back with
  | zero => rw [outlineWithin, String.empty_append]; rfl
  | succ bound ih =>
    cases hblock : s.get? id with
    | none =>
      have hmissing : OneLine ("<missing #" ++ toString id ++ ">") := by
        have hfront : OneLine "<missing #" := by decide
        have hback : OneLine ">" := by decide
        exact (hfront.append (oneLine_toString id)).append hback
      have hhead : ("<missing #" ++ toString id ++ ">").toList.head? = some '<' :=
        head?_append (head?_append rfl _) _
      rw [outlineWithin, rowsWithin, hblock]
      refine (headings_indented depth hmissing hhead (by decide) back).trans ?_
      rw [if_neg (by decide)]
      rfl
    | some block =>
      have hhead : (block.heading id).toList.head? = some '#' := by
        obtain ⟨rest, hrest⟩ := block.toList_heading id
        rw [hrest]
        rfl
      have hcatch (handler : BlockId) (_ : handler ∈ block.kind.companion.toList)
          (back : String) :
          headings (indented (depth + 1) "catch:" ++ s.outlineWithin bound (depth + 2) handler ++
            back) = (s.rowsWithin bound (depth + 2) handler).map s.rowHeading ++ headings back := by
        have hline : OneLine "catch:" := by decide
        rw [String.append_assoc, headings_indented _ hline rfl (by decide), if_neg (by decide), ih]
      have helement (e : Element) (he : e ∈ block.elements) (back : String) :
          headings (elementOutline (s.outlineWithin bound (depth + 1)) (depth + 1) e ++ back) =
            (e.inPlace?.toList.flatMap (s.rowsWithin bound (depth + 1))).map s.rowHeading ++
              headings back :=
        headings_elementOutline (ih (depth + 1)) _ (h e ⟨id, block, hblock, he⟩) back
      rw [outlineWithin_of_get? hblock, rowsWithin_of_get? hblock, String.append_assoc,
        String.append_assoc, headings_indented depth (block.oneLine_heading id) hhead (by decide),
        if_pos rfl, headings_join hcatch, headings_join helement, List.map_cons,
        rowHeading_of_get? hblock, Block.shown, List.flatMap_append, List.map_append,
        List.flatMap_map, List.flatMap_map, List.filterMap_eq_flatMap_toList, List.flatMap_assoc,
        List.cons_append, List.append_assoc]

/-- The outline goes from the first block right on to the second. -/
def Shows (s : Store) (parent child : BlockId) : Prop :=
  ∃ block, s.get? parent = some block ∧ child ∈ block.shown.map Prod.snd

theorem Shows.holds {parent child : BlockId} (h : s.Shows parent child) :
    s.Holds parent child := by
  obtain ⟨block, hblock, hchild⟩ := h
  obtain ⟨link, hlink, rfl⟩ := List.mem_map.mp hchild
  rw [Holds, childrenOf_of_get? hblock]
  exact Block.mem_children_of_mem_shown hlink

theorem le_of_mem_rowsWithin {bound depth : Nat} {row : Nat × BlockId}
    (h : row ∈ s.rowsWithin bound depth id) : depth ≤ row.1 := by
  induction bound generalizing depth id with
  | zero => cases h
  | succ bound ih =>
    cases hblock : s.get? id with
    | none =>
      rw [rowsWithin, hblock] at h
      cases h
    | some block =>
      rw [rowsWithin_of_get? hblock, List.mem_cons, List.mem_flatMap] at h
      rcases h with rfl | ⟨link, _, hrow⟩
      · exact Nat.le_refl depth
      · have hle := ih hrow
        omega

/-- Every row is that of a block that the outline reaches. -/
theorem reaches_of_mem_rowsWithin {bound depth : Nat} {row : Nat × BlockId}
    (h : row ∈ s.rowsWithin bound depth id) :
    (∃ block, s.get? row.2 = some block) ∧ ReflTransGen s.Shows id row.2 := by
  induction bound generalizing depth id with
  | zero => cases h
  | succ bound ih =>
    cases hblock : s.get? id with
    | none =>
      rw [rowsWithin, hblock] at h
      cases h
    | some block =>
      rw [rowsWithin_of_get? hblock, List.mem_cons, List.mem_flatMap] at h
      rcases h with rfl | ⟨link, hlink, hrow⟩
      · exact ⟨⟨block, hblock⟩, .refl⟩
      · obtain ⟨hfound, hreaches⟩ := ih hrow
        exact ⟨hfound, hreaches.head ⟨block, hblock, List.mem_map_of_mem hlink⟩⟩

theorem mem_rowsWithin_of_reaches {bound : Nat} (h : s.NestsWithin bound id) {b : BlockId}
    (hb : ReflTransGen s.Shows id b) (depth : Nat) :
    b ∈ (s.rowsWithin bound depth id).map Prod.snd := by
  induction h generalizing depth with
  | @intro bound id block hblock _ ih =>
    rw [rowsWithin_of_get? hblock, List.map_cons, List.mem_cons, List.map_flatMap,
      List.mem_flatMap]
    rcases hb.cases_head with rfl | ⟨c, ⟨found, hfound, hc⟩, hb⟩
    · exact Or.inl rfl
    · obtain rfl := Option.some.inj (hblock.symm.trans hfound)
      obtain ⟨link, hlink, rfl⟩ := List.mem_map.mp hc
      exact Or.inr ⟨link, hlink, ih _ (Block.mem_children_of_mem_shown hlink) hb _⟩

/-- The outline never comes closer to its root before it shows a block right below another. -/
theorem nested_of_mem_rowsWithin {bound depth : Nat} (h : s.NestsWithin bound id)
    {row : Nat × BlockId} (hrow : row ∈ s.rowsWithin bound depth id) {block : Block}
    (hblock : s.get? row.2 = some block) {link : Nat × BlockId} (hlink : link ∈ block.shown) :
    ∃ front middle back, s.rowsWithin bound depth id =
        front ++ row :: (middle ++ (row.1 + link.1, link.2) :: back) ∧
      ∀ r ∈ middle, row.1 + link.1 ≤ r.1 := by
  induction h generalizing depth with
  | @intro bound id top htop hchildren ih =>
    rw [rowsWithin_of_get? htop, List.mem_cons, List.mem_flatMap] at hrow
    rw [rowsWithin_of_get? htop]
    rcases hrow with rfl | ⟨upper, hupper, hrow⟩
    · obtain rfl := Option.some.inj (htop.symm.trans hblock)
      obtain ⟨before, after, hshown⟩ := List.append_of_mem hlink
      have hsteps := top.pairwise_shown
      rw [hshown, List.pairwise_append] at hsteps
      cases hchildren link.2 (Block.mem_children_of_mem_shown hlink) with
      | @intro bound _ inner hinner _ =>
        rw [hshown, List.flatMap_append, List.flatMap_cons, rowsWithin_of_get? hinner]
        refine ⟨[], _, _, rfl, fun r hr => ?_⟩
        obtain ⟨earlier, hearlier, hr⟩ := List.mem_flatMap.mp hr
        have hle := le_of_mem_rowsWithin hr
        have hstep := hsteps.2.2 earlier hearlier link List.mem_cons_self
        exact Nat.le_trans (Nat.add_le_add_left hstep depth) hle
    · obtain ⟨front, middle, back, hrows, hmiddle⟩ :=
        ih upper.2 (Block.mem_children_of_mem_shown hupper) hrow
      obtain ⟨before, after, hshown⟩ := List.append_of_mem hupper
      refine ⟨(depth, id) :: (before.flatMap fun link =>
        s.rowsWithin bound (depth + link.1) link.2) ++ front, middle,
        back ++ after.flatMap fun link => s.rowsWithin bound (depth + link.1) link.2, ?_, hmiddle⟩
      rw [hshown, List.flatMap_append, List.flatMap_cons, hrows]
      simp only [List.append_assoc, List.cons_append]

/-- A routine that is the handler of a signal. -/
def Installed (s : Store) (b : BlockId) : Prop :=
  ∃ signal, s.Stores (.statement (.signal signal b))

/-- The block is the handler of a signal or lies within one. -/
def Handled (s : Store) (b : BlockId) : Prop :=
  ∃ handler, s.Installed handler ∧ ReflTransGen s.Holds handler b

theorem installed_iff {b : BlockId} : s.Installed b ↔
    ∃ p block, s.get? p = some block ∧ b ∈ block.elements.filterMap Element.installs? := by
  have hinstalls (e : Element) :
      e.installs? = some b ↔ ∃ signal, e = .statement (.signal signal b) := by
    cases e with
    | text _ | block _ | value _ | method _ => simp [Element.installs?]
    | statement content => cases content <;> simp [Element.installs?]
  constructor
  · rintro ⟨signal, p, block, hblock, he⟩
    exact ⟨p, block, hblock, List.mem_filterMap.mpr ⟨_, he, rfl⟩⟩
  · rintro ⟨p, block, hblock, hb⟩
    obtain ⟨e, he, hb⟩ := List.mem_filterMap.mp hb
    obtain ⟨signal, rfl⟩ := (hinstalls e).mp hb
    exact ⟨signal, p, block, hblock, he⟩

theorem holds_of_installs {p b : BlockId} (hblock : s.get? p = some block)
    (hb : b ∈ block.elements.filterMap Element.installs?) : s.Holds p b := by
  have hpos := List.count_pos_iff.mpr hb
  rw [Holds, childrenOf_of_get? hblock, ← List.count_pos_iff, block.count_children]
  omega

end Store

namespace Scopes.Linked

variable {s : Scopes} {a b c p : BlockId}

theorem holds_iff (h : s.Linked) : s.store.Holds p c ↔ s.store.rootOf c = some p :=
  h.mem_childrenOf

theorem nests_of_holds (h : s.Linked) (hholds : s.store.Holds p c) :
    ∃ depth, s.store.NestsWithin depth p := by
  have hlt : p < s.store.size := by
    apply Nat.lt_of_not_le
    intro hle
    exact h.rootOf_ne_of_size_le hle c (h.holds_iff.mp hholds)
  exact ⟨_, h.nestsWithin p hlt⟩

theorem not_reaches_parent (h : s.Linked) (hholds : s.store.Holds p c) :
    ¬ReflTransGen s.store.Holds c p := by
  intro hback
  obtain ⟨depth, hnests⟩ := h.nests_of_holds hholds
  exact hnests.not_cyclic (TransGen.head' hholds hback)

theorem eq_of_siblings (h : s.Linked) (ha : s.store.Holds p a) (hb : s.store.Holds p b)
    (hac : ReflTransGen s.store.Holds a c) (hbc : ReflTransGen s.store.Holds b c) : a = b := by
  obtain ⟨depth, hnests⟩ := h.nests_of_holds ha
  have hheld (q q' d : BlockId) (hq : s.store.Holds q d) (hq' : s.store.Holds q' d) : q = q' :=
    Option.some.inj ((h.holds_iff.mp hq).symm.trans (h.holds_iff.mp hq'))
  exact Store.eq_of_reaches hheld hnests ha hb hac hbc

theorem nodup_shown (h : s.Linked) {block : Block} (hblock : s.store.get? p = some block) :
    (block.shown.map Prod.snd).Nodup := by
  rw [List.nodup_iff_count_le_one]
  intro c
  have hheld := h.held p c
  rw [Store.childrenOf_of_get? hblock, block.count_children] at hheld
  split_ifs at hheld <;> omega

/-- No block is shown twice. -/
theorem nodup_rowsWithin (h : s.Linked) (bound depth : Nat) (id : BlockId) :
    ((s.store.rowsWithin bound depth id).map Prod.snd).Nodup := by
  induction bound generalizing depth id with
  | zero => exact List.nodup_nil
  | succ bound ih =>
    cases hblock : s.store.get? id with
    | none =>
      rw [Store.rowsWithin, hblock]
      exact List.nodup_nil
    | some block =>
      have hholds {link : Nat × BlockId} (hlink : link ∈ block.shown) : s.store.Holds id link.2 :=
        Store.Shows.holds ⟨block, hblock, List.mem_map_of_mem hlink⟩
      have hbelow {link : Nat × BlockId} {b : BlockId}
          (hb : b ∈ (s.store.rowsWithin bound (depth + link.1) link.2).map Prod.snd) :
          ReflTransGen s.store.Holds link.2 b := by
        obtain ⟨row, hrow, rfl⟩ := List.mem_map.mp hb
        exact ReflTransGen.mono (fun _ _ => Store.Shows.holds) _ _
          (Store.reaches_of_mem_rowsWithin hrow).2
      rw [Store.rowsWithin_of_get? hblock, List.map_cons, List.map_flatMap, List.nodup_cons,
        List.nodup_flatMap]
      refine ⟨?_, fun link _ => ih _ _, ?_⟩
      · rw [List.mem_flatMap]
        rintro ⟨link, hlink, hid⟩
        exact h.not_reaches_parent (hholds hlink) (hbelow hid)
      · have hnodup := h.nodup_shown hblock
        rw [List.Nodup, List.pairwise_map] at hnodup
        refine hnodup.imp_of_mem fun hlink hother hne b hb hb' => hne ?_
        exact h.eq_of_siblings (hholds hlink) (hholds hother) (hbelow hb) (hbelow hb')

/-- A block is shown below the block that holds it unless it is the handler of a signal. -/
theorem shows_iff (h : s.Linked) (hholds : s.store.Holds p c) :
    s.store.Shows p c ↔ ¬s.store.Installed c := by
  obtain ⟨block, hblock, _⟩ := Store.exists_of_mem_childrenOf hholds
  have hheld := h.held p c
  rw [Store.childrenOf_of_get? hblock, block.count_children, if_pos (h.holds_iff.mp hholds)]
    at hheld
  constructor
  · rintro ⟨found, hfound, hc⟩ hinstalled
    obtain rfl := Option.some.inj (hblock.symm.trans hfound)
    obtain ⟨q, other, hother, hmem⟩ := Store.installed_iff.mp hinstalled
    have hq : s.store.Holds q c := Store.holds_of_installs hother hmem
    obtain rfl := Option.some.inj ((h.holds_iff.mp hq).symm.trans (h.holds_iff.mp hholds))
    obtain rfl := Option.some.inj (hblock.symm.trans hother)
    have hshown := List.count_pos_iff.mpr hc
    have hpos := List.count_pos_iff.mpr hmem
    omega
  · intro hnot
    refine ⟨block, hblock, ?_⟩
    have hzero : (block.elements.filterMap Element.installs?).count c = 0 := by
      rw [List.count_eq_zero]
      exact fun hmem => hnot (Store.installed_iff.mpr ⟨p, block, hblock, hmem⟩)
    rw [← List.count_pos_iff]
    omega

/-- The outline of a file reaches the blocks that lie in no handler of a signal. -/
theorem reaches_iff (h : s.Linked) (houter : s.outer = []) (hb : b < s.store.size) :
    ReflTransGen s.store.Shows 0 b ↔ ¬s.store.Handled b := by
  have hfile (q : BlockId) : ¬s.store.Holds q 0 := by
    intro hholds
    have hnone := (h.rootless 0 h.zero_lt_size).mpr (List.mem_of_getLast? h.outermost)
    rw [h.holds_iff, hnone] at hholds
    cases hholds
  constructor
  · intro hreaches
    -- along the blocks shown, down from the file
    induction hreaches with
    | refl =>
      rintro ⟨handler, hinstalled, hto⟩
      rcases hto.cases_tail with heq | ⟨q, _, hq⟩
      · rw [← heq] at hinstalled
        obtain ⟨q, block, hblock, hmem⟩ := Store.installed_iff.mp hinstalled
        exact hfile q (Store.holds_of_installs hblock hmem)
      · exact hfile q hq
    | @tail p b hpath hshows ih =>
      rintro ⟨handler, hinstalled, hto⟩
      have hholds := hshows.holds
      rcases hto.cases_tail with rfl | ⟨q, hq, hqb⟩
      · exact (h.shows_iff hholds).mp hshows hinstalled
      · obtain rfl := Option.some.inj ((h.holds_iff.mp hqb).symm.trans (h.holds_iff.mp hholds))
        obtain ⟨block, hblock, _⟩ := hshows
        exact ih (Store.lt_size_of_get? hblock) ⟨handler, hinstalled, hq⟩
  · have hreachable := h.reachable houter b hb
    clear hb
    induction hreachable with
    | refl => exact fun _ => .refl
    | @tail p b _ hholds ih =>
      intro hnot
      refine (ih ?_).tail ((h.shows_iff hholds).mpr fun hinstalled => hnot ⟨b, hinstalled, .refl⟩)
      rintro ⟨handler, hinstalled, hto⟩
      exact hnot ⟨handler, hinstalled, hto.tail hholds⟩

end Scopes.Linked

/-- The number of lines of the outline that head the block. -/
def Program.headingCount (program : Program) (b : BlockId) (block : Block) : Nat :=
  (headings program.outline).countP fun line => line.2 = block.heading b

namespace Store

variable {s : Store}

/-- The blocks that the outline of the file shows. -/
def rows (s : Store) : List (Nat × BlockId) :=
  s.rowsWithin (s.size + 1) 0 0

theorem headings_outline (h : ∀ e, s.Stores e → e.Labelled) :
    headings (s.outline 0) = s.rows.map s.rowHeading := by
  have hheadings := headings_outlineWithin h (s.size + 1) 0 0 ""
  have hempty : headings "" = [] := by decide
  rwa [String.append_empty, hempty, List.append_nil] at hheadings

theorem countP_rows {b : BlockId} {block : Block} (hblock : s.get? b = some block) :
    ((s.rows.map s.rowHeading).countP fun line => line.2 = block.heading b) =
      (s.rows.map Prod.snd).count b := by
  rw [List.countP_map, List.count, List.countP_map]
  refine List.countP_congr fun row hrow => ?_
  obtain ⟨⟨found, hfound⟩, _⟩ := reaches_of_mem_rowsWithin hrow
  obtain ⟨depth, id⟩ := row
  simp only [Function.comp_apply, rowHeading_of_get? hfound, decide_eq_true_eq, beq_iff_eq]
  constructor
  · exact Block.heading_injective
  · rintro rfl
    rw [Option.some.inj (hblock.symm.trans hfound)]

end Store

namespace Scopes

variable {s : Scopes}

namespace Linked

theorem mem_rows_iff (h : s.Linked) (houter : s.outer = []) {b : BlockId}
    (hb : b < s.store.size) : b ∈ s.store.rows.map Prod.snd ↔ ¬s.store.Handled b := by
  rw [← h.reaches_iff houter hb]
  constructor
  · intro hmem
    obtain ⟨row, hrow, rfl⟩ := List.mem_map.mp hmem
    exact (Store.reaches_of_mem_rowsWithin hrow).2
  · intro hreaches
    exact Store.mem_rowsWithin_of_reaches (h.nestsWithin 0 h.zero_lt_size) hreaches 0

theorem count_rows_eq_one (h : s.Linked) (houter : s.outer = []) {b : BlockId}
    (hb : b < s.store.size) : (s.store.rows.map Prod.snd).count b = 1 ↔ ¬s.store.Handled b := by
  rw [← h.mem_rows_iff houter hb]
  constructor
  · intro hone
    exact List.count_pos_iff.mp (by omega)
  · exact List.count_eq_one_of_mem (h.nodup_rowsWithin _ _ _)

/-- A block that is shown stands below the block that holds it. -/
theorem nested_rows (h : s.Linked) (houter : s.outer = []) {b : BlockId} {block : Block}
    (hblock : s.store.get? b = some block) (hnot : ¬s.store.Handled b) (hne : b ≠ 0) :
    ∃ p parent front middle back depth step, s.store.rootOf b = some p ∧
      s.store.get? p = some parent ∧ 0 < step ∧
      s.store.rows = front ++ (depth, p) :: (middle ++ (depth + step, b) :: back) ∧
      ∀ row ∈ middle, depth + step ≤ row.1 := by
  have hb := Store.lt_size_of_get? hblock
  obtain ⟨p, hp⟩ := h.rootOf_isSome houter hb hne
  have hholds := h.holds_iff.mpr hp
  have hinstalled : ¬s.store.Installed b := fun hinstalled => hnot ⟨b, hinstalled, .refl⟩
  obtain ⟨parent, hparent, hchild⟩ := (h.shows_iff hholds).mpr hinstalled
  obtain ⟨link, hlink, rfl⟩ := List.mem_map.mp hchild
  have hshown : p ∈ s.store.rows.map Prod.snd := by
    rw [h.mem_rows_iff houter (Store.lt_size_of_get? hparent)]
    rintro ⟨handler, hhandler, hto⟩
    exact hnot ⟨handler, hhandler, hto.tail hholds⟩
  obtain ⟨⟨depth, _⟩, hrow, rfl⟩ := List.mem_map.mp hshown
  obtain ⟨front, middle, back, hrows, hmiddle⟩ := Store.nested_of_mem_rowsWithin
    (h.nestsWithin 0 h.zero_lt_size) hrow hparent hlink
  exact ⟨_, parent, front, middle, back, depth, link.1, hp, hparent,
    Block.one_le_of_mem_shown hlink, hrows, hmiddle⟩

end Linked

theorem Lists.unhandled_iff {lines : List Construct} (h : Lists lines s) (hlinked : s.Linked)
    (houter : s.outer = []) :
    (∀ b block, s.store.get? b = some block → ¬s.store.Handled b) ↔
      ∀ c ∈ lines, c.isSignal = false := by
  constructor
  · intro hall c hc
    rw [← Bool.not_eq_true]
    intro hsignal
    obtain ⟨signal, routine, hstores⟩ := (h.signal_iff houter).mp ⟨c, hc, hsignal⟩
    have hinstalled : s.store.Installed routine := ⟨signal, hstores⟩
    obtain ⟨q, parent, hparent, hmem⟩ := Store.installed_iff.mp hinstalled
    obtain ⟨block, hblock⟩ := Store.exists_get?
      (hlinked.child_lt_size (Store.holds_of_installs hparent hmem))
    exact hall routine block hblock ⟨routine, hinstalled, .refl⟩
  · rintro hnone b block _ ⟨handler, ⟨signal, hstores⟩, _⟩
    obtain ⟨c, hc, hsignal⟩ := (h.signal_iff houter).mpr ⟨signal, handler, hstores⟩
    rw [hnone c hc] at hsignal
    cases hsignal

end Scopes

section Compiled

variable {settings : Settings} {script : Script} {program : Program} {log : List LogEntry}
  (h : compile settings script = (.ok program, log))

include h

/-- The scopes at the end of a compiled script list its lines. -/
theorem exists_lists_of_compile :
    ∃ lines final, script.lines.mapM (fun line => Line.classify line.2) = .ok lines ∧
      Scopes.Linked final ∧ Scopes.Lists lines final ∧ final.outer = [] ∧
      program = ⟨script.stem, final.store, 0, settings.tabSize⟩ := by
  obtain ⟨deps, lines, final, hdeps, hlines, hruns, houter, rfl, _⟩ := compile_run h
  have hwellFormed : ∀ c ∈ lines, c.WellFormed fun _ => True := by
    intro c hc
    obtain ⟨line, _, hline⟩ := exists_of_mem_mapM hlines hc
    exact Line.wellFormed_of_classify hline fun _ _ => trivial
  obtain ⟨hlinked, hlists⟩ := Scopes.Lists.of_runs hdeps hruns hwellFormed
  exact ⟨lines, final, hlines, hlinked, hlists, houter, by rw [hlinked.file]⟩

/-- The headings of the outline are those of the rows of the file. -/
theorem headings_of_compile :
    headings program.outline = program.store.rows.map program.store.rowHeading := by
  obtain ⟨_, final, _, _, hlists, _, rfl⟩ := exists_lists_of_compile h
  exact Store.headings_outline hlists.labelled

theorem headingCount_of_compile {b : BlockId} {block : Block}
    (hblock : program.store.get? b = some block) :
    program.headingCount b block = (program.store.rows.map Prod.snd).count b := by
  rw [Program.headingCount, headings_of_compile h, Store.countP_rows hblock]

end Compiled

/-- The outline of a compiled script leaves out the handlers of signals with all that lies within
them, and shows every other block once: one line heads it, and the nearest heading above that is
indented less is that of the block it belongs to. All lines that start with a number sign are
headings of blocks. So every block is shown exactly if no line of the script names a signal. -/
theorem outline_shows_all_but_handlers {settings : Settings} {script : Script} {program : Program}
    {log : List LogEntry} (h : compile settings script = (.ok program, log)) :
    (∀ b block, program.store.get? b = some block →
      program.headingCount b block = 0 ∧ program.store.Handled b ∨
        program.headingCount b block = 1 ∧ ¬program.store.Handled b) ∧
    (∀ b block, program.store.get? b = some block → ¬program.store.Handled b → b ≠ program.root →
      ∃ p parent front middle back i j, program.store.rootOf b = some p ∧
        program.store.get? p = some parent ∧ i < j ∧
        headings program.outline =
          front ++ (i, parent.heading p) :: (middle ++ (j, block.heading b) :: back) ∧
        ∀ line ∈ middle, j ≤ line.1) ∧
    (∀ line ∈ headings program.outline, ∃ b block, program.store.get? b = some block ∧
      line.2 = block.heading b) ∧
    ((∀ b block, program.store.get? b = some block → program.headingCount b block = 1) ↔
      ∀ line ∈ script.lines, ∀ name parameter,
        Line.classify line.2 ≠ .ok (.signal name parameter)) := by
  have hheadings := headings_of_compile h
  have hcount (b : BlockId) (block : Block) (hblock : program.store.get? b = some block) :=
    headingCount_of_compile h hblock
  obtain ⟨lines, final, hlines, hlinked, hlists, houter, rfl⟩ := exists_lists_of_compile h
  have hone (b : BlockId) (block : Block) (hblock : final.store.get? b = some block) :=
    hlinked.count_rows_eq_one houter (Store.lt_size_of_get? hblock)
  refine ⟨fun b block hblock => ?_, fun b block hblock hnot hne => ?_, fun line hline => ?_, ?_, ?_⟩
  · rw [hcount b block hblock, hone b block hblock]
    by_cases hhandled : final.store.Handled b
    · have hnotMem := mt (hlinked.mem_rows_iff houter (Store.lt_size_of_get? hblock)).mp
        (not_not_intro hhandled)
      exact Or.inl ⟨List.count_eq_zero.mpr hnotMem, hhandled⟩
    · exact Or.inr ⟨hhandled, hhandled⟩
  · obtain ⟨p, parent, front, middle, back, depth, step, hp, hparent, hstep, hrows, hmiddle⟩ :=
      hlinked.nested_rows houter hblock hnot hne
    refine ⟨p, parent, front.map final.store.rowHeading, middle.map final.store.rowHeading,
      back.map final.store.rowHeading, 2 * depth, 2 * (depth + step), hp, hparent, by omega, ?_, ?_⟩
    · rw [hheadings, hrows, List.map_append, List.map_cons, List.map_append, List.map_cons,
        Store.rowHeading_of_get? hparent, Store.rowHeading_of_get? hblock]
    · intro line hline
      obtain ⟨row, hrow, rfl⟩ := List.mem_map.mp hline
      exact Nat.mul_le_mul_left 2 (hmiddle row hrow)
  · rw [hheadings] at hline
    obtain ⟨⟨depth, b⟩, hrow, rfl⟩ := List.mem_map.mp hline
    obtain ⟨⟨block, hblock⟩, _⟩ := Store.reaches_of_mem_rowsWithin hrow
    exact ⟨b, block, hblock, by rw [Store.rowHeading_of_get? hblock]⟩
  · intro hall line hline name parameter hclassify
    have hnone := (hlists.unhandled_iff hlinked houter).mp fun b block hblock => by
      rw [← hone b block hblock, ← hcount b block hblock]
      exact hall b block hblock
    cases hnone _ (mem_of_mapM hlines hline hclassify)
  · intro hnone b block hblock
    rw [hcount b block hblock, hone b block hblock]
    refine (hlists.unhandled_iff hlinked houter).mpr (fun c hc => ?_) b block hblock
    obtain ⟨line, hline, hclassify⟩ := exists_of_mem_mapM hlines hc
    cases c with
    | signal name parameter => exact absurd hclassify (hnone line hline name parameter)
    | _ => rfl

theorem outline_shows_all_but_handlers_nested :
    ∃ program log,
      compile {} (.ofSource "a" "try \x7b\n\x7d\nsignal INT(s) \x7b\n\x7b\n\x7d\n\x7d") =
        (.ok program, log) ∧
      program.store.size = 5 ∧ (headings program.outline).length = 3 ∧
      ∀ b block, program.store.get? b = some block →
        program.headingCount b block = 0 ∧ program.store.Handled b ∨
          program.headingCount b block = 1 ∧ ¬program.store.Handled b := by
  obtain ⟨program, log, h, hsizes⟩ := exists_of_compile_any {}
    (.ofSource "a" "try \x7b\n\x7d\nsignal INT(s) \x7b\n\x7b\n\x7d\n\x7d")
    (fun program => program.store.size == 5 && program.store.rows.length == 3)
    (by decide +kernel)
  rw [Bool.and_eq_true, beq_iff_eq, beq_iff_eq] at hsizes
  refine ⟨program, log, h, hsizes.1, ?_, (outline_shows_all_but_handlers h).1⟩
  rw [headings_of_compile h, List.length_map]
  exact hsizes.2

/-- The handler of a signal has no heading. -/
theorem handler_without_heading :
    ∃ program log block, compile {} (.ofSource "a" "signal INT \x7b\n\x7d") = (.ok program, log) ∧
      program.store.get? 1 = some block ∧ program.headingCount 1 block = 0 := by
  obtain ⟨program, log, h, hcount⟩ := exists_of_compile_any {}
    (.ofSource "a" "signal INT \x7b\n\x7d")
    (fun program => (program.store.get? 1).isSome &&
      (program.store.rows.map Prod.snd).count 1 == 0) (by decide +kernel)
  rw [Bool.and_eq_true, beq_iff_eq] at hcount
  obtain ⟨block, hblock⟩ := Option.isSome_iff_exists.mp hcount.1
  exact ⟨program, log, block, h, hblock, (headingCount_of_compile h hblock).trans hcount.2⟩

end LineScript
