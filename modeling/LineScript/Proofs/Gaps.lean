import LineScript.Proofs.Flush
import LineScript.Proofs.Moved
import LineScript.Proofs.Spaced

/-!
# Texts with a piece more

A blank line more in a block makes a gap in the text of the block, and in that of every block around
it: a piece more at the start of a line. All other blocks keep their texts, as a block is held by
one other block only.
-/
namespace LineScript

open Layout

/-- The text is empty or ends with a line. -/
def EndsLine (text : String) : Prop :=
  text = "" ∨ ∃ front, text = front ++ "\n"

theorem endsLine_feed (front : String) : EndsLine (front ++ "\n") :=
  Or.inr ⟨front, rfl⟩

theorem EndsLine.append {t u : String} (ht : EndsLine t) (hu : EndsLine u) :
    EndsLine (t ++ u) := by
  rcases hu with rfl | ⟨front, rfl⟩
  · rwa [String.append_empty]
  · rw [← String.append_assoc]
    exact endsLine_feed _

theorem endsLine_brace (head : String) : EndsLine (head ++ "\x7b\n") :=
  Or.inr ⟨head ++ "\x7b", by rw [String.append_assoc]; rfl⟩

theorem endsLine_declaration {routineText : BlockId → Except Fault String} {v : Value}
    {text : String}
    (h : v.declaration routineText = .ok text) : EndsLine text := by
  obtain ⟨expression, _, h⟩ := (except_bind_ok _ _ _).mp h
  cases hname : v.name with
  | none =>
    rw [hname] at h
    obtain rfl := (except_pure_ok _ _).mp h
    exact Or.inr ⟨expression ++ ";", by rw [String.append_assoc]; rfl⟩
  | some name =>
    rw [hname] at h
    obtain rfl := (except_pure_ok _ _).mp h
    refine Or.inr ⟨s!"my ${name} = {expression};", ?_⟩
    simp only [String.append_assoc]
    rfl

theorem Layout.Flushed.endsLine {text : String} (h : Flushed text) : EndsLine text := by
  obtain ⟨lines, hlines, rfl⟩ := h
  clear hlines
  induction lines with
  | nil => exact Or.inl rfl
  | cons line rest ih =>
    rw [unlines_cons]
    exact (endsLine_feed line).append ih

/-- Two texts one after the other, if both are there. -/
def joined (x y : Except Fault String) : Except Fault String := do
  return (← x) ++ (← y)

/-- Both texts are refused alike, or the second has a piece more at the start of a line. -/
inductive Gap (piece : String) : Except Fault String → Except Fault String → Prop where
  | error (fault : Fault) : Gap piece (.error fault) (.error fault)
  | ok {front : String} (hfront : EndsLine front) (back : String) :
      Gap piece (.ok (front ++ back)) (.ok (front ++ piece ++ back))

namespace Gap

variable {piece : String} {x y : Except Fault String}

/-- A text that the two come to stand in, behind the end of a line. -/
theorem wrap (h : Gap piece x y) {head tail : String} (hhead : EndsLine head)
    {around : String → String} (haround : ∀ text, around text = head ++ text ++ tail) :
    Gap piece (x >>= fun text => pure (around text)) (y >>= fun text => pure (around text)) := by
  cases h with
  | error fault => exact .error fault
  | @ok front hfront back =>
    change Gap piece (.ok (around (front ++ back))) (.ok (around (front ++ piece ++ back)))
    have hleft : around (front ++ back) = head ++ front ++ (back ++ tail) := by
      simp only [haround, String.append_assoc]
    have hright : around (front ++ piece ++ back) = head ++ front ++ piece ++ (back ++ tail) := by
      simp only [haround, String.append_assoc]
    rw [hleft, hright]
    exact .ok (hhead.append hfront) _

/-- A gap in a text is one in the text in braces. -/
theorem braces (h : Gap piece x y) (head tail : String) :
    Gap piece (x >>= fun text => pure (head ++ inBraces text ++ tail))
      (y >>= fun text => pure (head ++ inBraces text ++ tail)) := by
  have haround (text : String) : head ++ inBraces text ++ tail =
      head ++ "\x7b\n" ++ text ++ ("\x7d" ++ tail) := by
    simp only [inBraces, String.append_assoc]
  exact h.wrap (endsLine_brace head) haround

theorem definition (h : Gap piece x y) (info : Routine) (head tail : String) :
    Gap piece (x >>= fun text => pure (head ++ info.definition text ++ tail))
      (y >>= fun text => pure (head ++ info.definition text ++ tail)) := by
  cases hname : info.name with
  | none =>
    have hdefinition (text : String) : head ++ info.definition text ++ tail =
        head ++ "sub " ++ inBraces text ++ tail := by
      simp only [Routine.definition, hname, String.append_assoc]
    simp only [hdefinition]
    exact h.braces _ tail
  | some name =>
    have hdefinition (text : String) : head ++ info.definition text ++ tail =
        head ++ ("sub " ++ name ++ " ") ++ inBraces text ++ tail := by
      simp only [Routine.definition, hname, String.append_assoc]
    simp only [hdefinition]
    exact h.braces _ tail

theorem joined_left (h : Gap piece x y) (rest : Except Fault String) :
    Gap piece (joined x rest) (joined y rest) := by
  cases h with
  | error fault => exact .error fault
  | @ok front hfront back =>
    cases rest with
    | error fault => exact .error fault
    | ok text =>
      change Gap piece (.ok (front ++ back ++ text)) (.ok (front ++ piece ++ back ++ text))
      rw [String.append_assoc, String.append_assoc]
      exact .ok hfront _

theorem joined_right (h : Gap piece x y) {first : Except Fault String}
    (hfirst : ∀ text, first = .ok text → EndsLine text) :
    Gap piece (joined first x) (joined first y) := by
  cases first with
  | error fault => exact .error fault
  | ok text =>
    cases h with
    | error fault => exact .error fault
    | @ok front hfront back =>
      change Gap piece (.ok (text ++ (front ++ back))) (.ok (text ++ (front ++ piece ++ back)))
      rw [← String.append_assoc, ← String.append_assoc, ← String.append_assoc]
      exact .ok ((hfirst text rfl).append hfront) _

theorem self (piece : String) (x : Except Fault String) : Gap piece x (joined (.ok piece) x) := by
  cases x with
  | error fault => exact .error fault
  | ok text =>
    have h : Gap piece (.ok ("" ++ text)) (.ok ("" ++ piece ++ text)) := .ok (Or.inl rfl) text
    rwa [String.empty_append, String.empty_append] at h

end Gap

namespace Store

variable {s t : Store} {depth : Nat}

/-- The texts of elements one after the other, with blocks nested at most as deep as the bound. -/
def elementsWithin (s : Store) (depth : Nat) (es : List Element) : Except Fault String := do
  return String.join
    (← es.mapM (s.elementTextBy (s.blockWithin depth) (s.routineTextBy (s.bodyWithin depth))))

theorem elementsWithin_append (front back : List Element) :
    s.elementsWithin depth (front ++ back) =
      joined (s.elementsWithin depth front) (s.elementsWithin depth back) := by
  unfold elementsWithin
  rw [List.mapM_append]
  cases front.mapM (s.elementTextBy (s.blockWithin depth)
      (s.routineTextBy (s.bodyWithin depth))) with
  | error fault => rfl
  | ok texts =>
    cases back.mapM (s.elementTextBy (s.blockWithin depth)
        (s.routineTextBy (s.bodyWithin depth))) with
    | error fault => rfl
    | ok more => exact congrArg Except.ok String.join_append

theorem elementsWithin_cons (e : Element) (back : List Element) :
    s.elementsWithin depth (e :: back) =
      joined (s.elementTextBy (s.blockWithin depth) (s.routineTextBy (s.bodyWithin depth)) e)
        (s.elementsWithin depth back) := by
  unfold elementsWithin
  rw [List.mapM_cons]
  cases s.elementTextBy (s.blockWithin depth) (s.routineTextBy (s.bodyWithin depth)) e with
  | error fault => rfl
  | ok text =>
    cases back.mapM (s.elementTextBy (s.blockWithin depth)
        (s.routineTextBy (s.bodyWithin depth))) with
    | error fault => rfl
    | ok more => exact congrArg Except.ok String.join_cons

theorem bodyWithin_succ {id : BlockId} {b : Block} (hb : s.get? id = some b) (depth : Nat) :
    s.bodyWithin (depth + 1) id = s.elementsWithin depth b.elements := by
  rw [bodyWithin, (s.block_ok id b).mpr hb]
  rfl

theorem blockWithin_succ {id : BlockId} {b : Block} (hb : s.get? id = some b) (depth : Nat) :
    s.blockWithin (depth + 1) id = kindText (s.blockWithin depth)
      (s.routineTextBy (s.bodyWithin depth)) b (s.elementsWithin depth b.elements) := by
  rw [blockWithin, (s.block_ok id b).mpr hb]
  rfl

end Store

namespace Gap

variable {piece : String} {x y : Except Fault String} {b b' : Block}
  {blockText blockText' routineText routineText' : BlockId → Except Fault String}

/-- A gap in the body of a block is one in its text. -/
theorem kindText (h : Gap piece x y) (hsettled : b.kind.Settled) (hkind : b'.kind = b.kind)
    (hplain : b.kind = .plain → b.elements ≠ [] ∧ b'.elements ≠ [])
    (hhandler : ∀ handler, b.kind.companion = some handler →
      blockText' handler = blockText handler) :
    Gap piece (Store.kindText blockText routineText b x)
      (Store.kindText blockText' routineText' b' y) := by
  unfold Store.kindText
  rw [hkind]
  cases hcase : b.kind with
  | file info => exact h
  | plain =>
    obtain ⟨hsome, hsome'⟩ := hplain hcase
    simp only [List.isEmpty_eq_false_iff.mpr hsome, List.isEmpty_eq_false_iff.mpr hsome',
      Bool.false_eq_true, if_false]
    have htext := h.braces "" ";\n"
    simp only [String.empty_append] at htext
    exact htext
  | routine info =>
    have htext := h.definition info "" ";\n"
    simp only [String.empty_append] at htext
    exact htext
  | condition info =>
    simp only
    split
    · exact h.braces "else " "\n"
    · exact h.braces "else " "\n"
    · exact h.braces _ "\n"
  | arrayLoop loop =>
    rw [hcase] at hsettled
    obtain ⟨counter, hcounter⟩ := hsettled.1.declaration
    obtain ⟨length, hlength⟩ := hsettled.2.1.declaration
    obtain ⟨element, helement⟩ := hsettled.2.2.declaration
    simp only [hcounter, hlength, helement]
    let index := "$" ++ loop.counter.name.getD ""
    let test := index ++ "->valueOf() < $" ++ loop.length.name.getD ""
    let step := index ++ "->add(1);\n"
    have haround (body : String) : inBraces (counter ++ length ++
        ("while (" ++ test ++ ") " ++ inBraces (element ++ body ++ step) ++ ";\n")) ++ ";\n" =
        ("\x7b\n" ++ counter ++ length ++ "while (" ++ test ++ ") " ++ "\x7b\n" ++ element) ++
          body ++ (step ++ "\x7d" ++ ";\n" ++ "\x7d" ++ ";\n") := by
      simp only [inBraces, String.append_assoc]
    exact h.wrap ((endsLine_brace _).append (endsLine_declaration (helement fun _ => .ok "")))
      haround
  | mapLoop loop => exact .error _
  | evaluation handler =>
    rw [hcase] at hhandler
    simp only [hhandler handler rfl]
    cases blockText handler with
    | error fault =>
      cases h with
      | error fault' => exact .error fault'
      | ok => exact .error fault
    | ok after =>
      have htext := h.braces "eval " (";\n" ++ after)
      simp only [← String.append_assoc] at htext
      exact htext

/-- A gap in the text of a handler is one in the text of the evaluation. -/
theorem evaluation {c : BlockId} (h : Gap piece (blockText c) (blockText' c))
    (hkind : b.kind = .evaluation c) (hkind' : b'.kind = b.kind) (x : Except Fault String) :
    Gap piece (Store.kindText blockText routineText b x)
      (Store.kindText blockText' routineText' b' x) := by
  unfold Store.kindText
  rw [hkind', hkind]
  cases x with
  | error fault => exact .error fault
  | ok body =>
    have hhead : EndsLine ("eval " ++ inBraces body ++ ";\n") :=
      Or.inr ⟨"eval " ++ inBraces body ++ ";", by simp only [String.append_assoc]; rfl⟩
    exact h.wrap hhead fun text => String.append_empty.symm

end Gap

/-- A block that is held once is either the handler of an evaluation or in one element. -/
theorem Block.split_of_count {b : Block} {c : BlockId} (h : b.children.count c = 1) :
    (b.kind.companion = some c ∧ ∀ e ∈ b.elements, e.child? ≠ some c) ∨
      b.kind.companion ≠ some c ∧ ∃ front e back, b.elements = front ++ e :: back ∧
        e.child? = some c ∧ ∀ e' ∈ front ++ back, e'.child? ≠ some c := by
  have hnone (es : List Element) (hcount : (es.filterMap Element.child?).count c = 0) :
      ∀ e ∈ es, e.child? ≠ some c := by
    intro e he hchild
    exact List.count_eq_zero.mp hcount (List.mem_filterMap.mpr ⟨e, he, hchild⟩)
  rw [Block.children, List.count_append] at h
  by_cases hcompanion : b.kind.companion = some c
  · rw [hcompanion] at h
    simp only [Option.toList_some, List.count_singleton_self] at h
    exact Or.inl ⟨hcompanion, hnone _ (by omega)⟩
  · have hzero : b.kind.companion.toList.count c = 0 := by
      rw [List.count_eq_zero, Option.mem_toList]
      exact hcompanion
    rw [hzero, Nat.zero_add] at h
    have hmem : c ∈ b.elements.filterMap Element.child? := List.count_pos_iff.mp (by omega)
    obtain ⟨e, he, hchild⟩ := List.mem_filterMap.mp hmem
    obtain ⟨front, back, hsplit⟩ := List.append_of_mem he
    refine Or.inr ⟨hcompanion, front, e, back, hsplit, hchild, hnone _ ?_⟩
    rw [hsplit, List.filterMap_append, List.filterMap_cons_some hchild, List.count_append,
      List.count_cons_self] at h
    rw [List.filterMap_append, List.count_append]
    omega

/-- What a blank line more in the block adds to its text. A plain block without elements has no
text, and comes with its braces only if it has one. -/
def Block.spacer (b : Block) : String :=
  match b.kind, b.elements with
  | .plain, [] => inBraces "\n" ++ ";\n"
  | _, _ => "\n"

theorem Block.spacer_eq_feed {b : Block} (h : b.kind = .plain → b.elements ≠ []) :
    b.spacer = "\n" := by
  unfold spacer
  split
  · rename_i hkind helements
    exact absurd helements (h hkind)
  · rfl

namespace Store

variable {s t : Store} {depth : Nat} {p id : BlockId}

section Spaced

variable (hs : s.Settled) (h : s.Alike (Spaced p) t)

include h

/-- A block that does not lead to the one with the blank line is as it was. -/
theorem Alike.moved : s.Moved 0 (fun id => ¬ Relation.ReflTransGen s.Holds id p) t where
  block id b hid hb := by
    obtain ⟨b', hb', hkind, _, _, helements⟩ := h.block id b hb
    have hne : id ≠ p := fun heq => hid (heq ▸ .refl)
    rw [Spaced, if_neg hne] at helements
    exact ⟨b', hb', by rw [hkind, BlockKind.shift_zero], by rw [helements, Element.map_shift_zero]⟩
  children id c hid hc hreaches := hid (.head hc hreaches)
  files _ _ _ _ _ := rfl

/-- An element that holds a block with a gap. -/
theorem Alike.gap_element {piece : String} {e : Element} {c : BlockId} (hsettled : e.Settled s)
    (hchild : e.child? = some c)
    (hblock : Gap piece (s.blockWithin depth c) (t.blockWithin depth c))
    (hbody : s.IsRoutine c none → Gap piece (s.bodyWithin depth c) (t.bodyWithin depth c)) :
    Gap piece (s.elementTextBy (s.blockWithin depth) (s.routineTextBy (s.bodyWithin depth)) e)
      (t.elementTextBy (t.blockWithin depth) (t.routineTextBy (t.bodyWithin depth)) e) := by
  cases e with
  | text _ | value _ | method _ => cases hchild
  | block child =>
    obtain rfl := Option.some.inj hchild
    exact hblock
  | statement content =>
    cases content with
    | dependency _ | binding _ | giveBack _ | print _ | assign _ | exit _ | package _ =>
      cases hchild
    | signal signal routine =>
      obtain rfl := Option.some.inj hchild
      obtain ⟨b, info, hb, hkind, hname⟩ := IsRoutine.get? hsettled
      obtain ⟨b', hb', halike⟩ := h.block routine b ((block_ok _ _ _).mp hb)
      rw [← block_ok] at hb'
      have hkind' : b'.kind = .routine info := halike.kind.trans hkind
      have htext := (hbody hsettled).definition info ("$SIG\x7b" ++ signal.key ++ "\x7d = ") ";\n"
      simp only [Store.elementTextBy, Store.statementTextBy]
      rw [handlerText_of_kind hb hkind hname, handlerText_of_kind hb' hkind' hname,
        routineTextBy_of_kind hb hkind, routineTextBy_of_kind hb' hkind', bind_assoc, bind_assoc]
      exact htext

include hs

theorem Alike.blockWithin_eq (hnests : s.NestsWithin depth id)
    (hid : ¬ Relation.ReflTransGen s.Holds id p) :
    t.blockWithin depth id = s.blockWithin depth id :=
  (h.moved.within hs hnests hid).1

theorem Alike.elementsWithin_eq {es : List Element} (hsettled : ∀ e ∈ es, e.Settled s)
    (hes : ∀ e ∈ es, ∀ c, e.child? = some c →
      s.NestsWithin depth c ∧ ¬ Relation.ReflTransGen s.Holds c p) :
    t.elementsWithin depth es = s.elementsWithin depth es := by
  have htexts := h.moved.mapM_elementTextBy hsettled fun e he c hc =>
    have hwithin := h.moved.within hs (hes e he c hc).1 (hes e he c hc).2
    And.intro (hes e he c hc).2 hwithin
  rw [Element.map_shift_zero] at htexts
  unfold elementsWithin
  rw [htexts]

variable (hends : ∀ depth es text, (∀ e ∈ es, s.Stores e) →
  s.elementsWithin depth es = .ok text → EndsLine text)

include hends

/-- The elements among which the blank line is. -/
theorem Alike.gap_spaced {es es' : List Element} (hspaced : Spaced p p es es')
    (hstored : ∀ e ∈ es, s.Stores e)
    (hes : ∀ e ∈ es, ∀ c, e.child? = some c →
      s.NestsWithin depth c ∧ ¬ Relation.ReflTransGen s.Holds c p) :
    Gap "\n" (s.elementsWithin depth es) (t.elementsWithin depth es') := by
  rw [Spaced, if_pos rfl] at hspaced
  obtain ⟨front, back, rfl, rfl⟩ := hspaced
  rw [List.forall_mem_append] at hstored hes
  have hfront := h.elementsWithin_eq hs (fun e he => hs.element e (hstored.1 e he)) hes.1
  have hback := h.elementsWithin_eq hs (fun e he => hs.element e (hstored.2 e he)) hes.2
  rw [elementsWithin_append, elementsWithin_append, elementsWithin_cons, hfront, hback]
  exact (Gap.self "\n" _).joined_right fun text => hends depth front text hstored.1

/-- The block with the blank line. -/
theorem Alike.gap_at {b : Block} (hb : s.get? p = some b)
    (hchildren : ∀ c ∈ b.children, s.NestsWithin depth c) :
    Gap b.spacer (s.blockWithin (depth + 1) p) (t.blockWithin (depth + 1) p) ∧
      (s.IsRoutine p none →
        Gap b.spacer (s.bodyWithin (depth + 1) p) (t.bodyWithin (depth + 1) p)) := by
  have hnests : s.NestsWithin (depth + 1) p := .intro hb hchildren
  have hinside (c : BlockId) (hc : c ∈ b.children) :
      s.NestsWithin depth c ∧ ¬ Relation.ReflTransGen s.Holds c p := by
    refine ⟨hchildren c hc, fun hback => hnests.not_cyclic ?_⟩
    rw [← childrenOf_of_get? hb] at hc
    exact .head' hc hback
  obtain ⟨b', hb', hkind, _, _, helements⟩ := h.block p b hb
  have hbody := h.gap_spaced hs hends helements (fun e he => ⟨p, b, hb, he⟩)
    fun e he c hc => hinside c (mem_children_of_element he hc)
  have hsome' : b'.elements ≠ [] := by
    rw [Spaced, if_pos rfl] at helements
    obtain ⟨front, back, _, helements'⟩ := helements
    simp [helements']
  rw [bodyWithin_succ hb, bodyWithin_succ hb', blockWithin_succ hb, blockWithin_succ hb']
  constructor
  · by_cases hhollow : b.kind = .plain ∧ b.elements = []
    · obtain ⟨hplain, hnil⟩ := hhollow
      rw [hnil, Spaced, if_pos rfl] at helements
      obtain ⟨front, back, hsplit, helements'⟩ := helements
      obtain ⟨rfl, rfl⟩ := List.append_eq_nil_iff.mp hsplit.symm
      have htext : kindText (s.blockWithin depth) (s.routineTextBy (s.bodyWithin depth)) b
          (s.elementsWithin depth b.elements) = .ok "" := by
        simp only [kindText, hplain, hnil, List.isEmpty_nil, if_true]
        rfl
      have htext' : kindText (t.blockWithin depth) (t.routineTextBy (t.bodyWithin depth)) b'
          (t.elementsWithin depth b'.elements) = .ok (inBraces "\n" ++ ";\n") := by
        simp only [kindText, hkind, hplain, helements', List.nil_append, List.isEmpty_cons,
          Bool.false_eq_true, if_false]
        rfl
      have hgap := Gap.self (inBraces "\n" ++ ";\n") (.ok "")
      rw [htext, htext', Block.spacer, hplain, hnil]
      exact hgap
    · have hplain : b.kind = .plain → b.elements ≠ [] := fun hplain hnil => hhollow ⟨hplain, hnil⟩
      rw [Block.spacer_eq_feed hplain]
      refine hbody.kindText (kind_settled_of_get? hs hb) hkind (fun hk => ⟨hplain hk, hsome'⟩) ?_
      intro handler hhandler
      have hmem : handler ∈ b.children :=
        List.mem_append_left _ (Option.mem_toList.mpr hhandler)
      exact h.blockWithin_eq hs (hinside handler hmem).1 (hinside handler hmem).2
  · intro hroutine
    obtain ⟨_, info, hok, hinfo, _⟩ := hroutine.get?
    obtain rfl := Option.some.inj (hb.symm.trans ((block_ok _ _ _).mp hok))
    rw [Block.spacer_eq_feed (by simp [hinfo])]
    exact hbody

/-- A block around one that leads to the block with the blank line. -/
theorem Alike.gap_around {piece : String} {b : Block} {c : BlockId} (hb : s.get? id = some b)
    (hne : id ≠ p) (hcount : b.children.count c = 1)
    (hothers : ∀ d ∈ b.children, d ≠ c →
      s.NestsWithin depth d ∧ ¬ Relation.ReflTransGen s.Holds d p)
    (hblock : Gap piece (s.blockWithin depth c) (t.blockWithin depth c))
    (hbody : s.IsRoutine c none → Gap piece (s.bodyWithin depth c) (t.bodyWithin depth c)) :
    Gap piece (s.blockWithin (depth + 1) id) (t.blockWithin (depth + 1) id) ∧
      (s.IsRoutine id none →
        Gap piece (s.bodyWithin (depth + 1) id) (t.bodyWithin (depth + 1) id)) := by
  have hstored (e : Element) (he : e ∈ b.elements) : s.Stores e := ⟨id, b, hb, he⟩
  have hsame (es : List Element) (hes : ∀ e ∈ es, e ∈ b.elements ∧ e.child? ≠ some c) :
      t.elementsWithin depth es = s.elementsWithin depth es := by
    refine h.elementsWithin_eq hs (fun e he => hs.element e (hstored e (hes e he).1)) ?_
    intro e he d hd
    refine hothers d (mem_children_of_element (hes e he).1 hd) ?_
    rintro rfl
    exact (hes e he).2 hd
  obtain ⟨b', hb', hkind, _, _, helements⟩ := h.block id b hb
  rw [Spaced, if_neg hne] at helements
  rw [bodyWithin_succ hb, bodyWithin_succ hb', blockWithin_succ hb, blockWithin_succ hb',
    helements]
  rcases b.split_of_count hcount with
    ⟨hcompanion, helse⟩ | ⟨hcompanion, front, e, back, hsplit, hchild, helse⟩
  · have hevaluation : b.kind = .evaluation c := by
      cases hcase : b.kind with
      | evaluation handler =>
        rw [hcase] at hcompanion
        exact congrArg _ (Option.some.inj hcompanion)
      | plain | file _ | routine _ | condition _ | arrayLoop _ | mapLoop _ =>
        rw [hcase] at hcompanion
        cases hcompanion
    rw [hsame b.elements fun e he => ⟨he, helse e he⟩]
    refine ⟨hblock.evaluation hevaluation hkind _, fun hroutine => ?_⟩
    obtain ⟨_, info, hok, hinfo, _⟩ := hroutine.get?
    obtain rfl := Option.some.inj (hb.symm.trans ((block_ok _ _ _).mp hok))
    rw [hevaluation] at hinfo
    cases hinfo
  · have he : e ∈ b.elements := by simp [hsplit]
    have hmem (e' : Element) (he' : e' ∈ front ++ back) : e' ∈ b.elements ∧ e'.child? ≠ some c := by
      refine ⟨?_, helse e' he'⟩
      rw [hsplit]
      exact ((List.Sublist.refl front).append (List.sublist_cons_self e back)).subset he'
    rw [List.forall_mem_append] at hmem
    have helement := h.gap_element (hs.element e (hstored e he)) hchild hblock hbody
    have hgap : Gap piece (s.elementsWithin depth b.elements)
        (t.elementsWithin depth b.elements) := by
      rw [hsplit, elementsWithin_append, elementsWithin_append, elementsWithin_cons,
        elementsWithin_cons, hsame front hmem.1, hsame back hmem.2]
      refine (helement.joined_left _).joined_right fun text => ?_
      exact hends depth front text fun e' he' => hstored e' (hmem.1 e' he').1
    refine ⟨hgap.kindText (kind_settled_of_get? hs hb) hkind ?_ ?_, fun _ => hgap⟩
    · intro _
      rw [helements]
      exact ⟨List.ne_nil_of_mem he, List.ne_nil_of_mem he⟩
    · intro handler hhandler
      obtain ⟨hnests, hreaches⟩ := hothers handler
        (List.mem_append_left _ (Option.mem_toList.mpr hhandler)) fun heq =>
          hcompanion (heq ▸ hhandler)
      exact h.blockWithin_eq hs hnests hreaches

variable (hheld : ∀ b c, (s.childrenOf b).count c = if s.rootOf c = some b then 1 else 0)

include hheld

/-- Every block that leads to the one with the blank line has a gap. -/
theorem Alike.gap_within {block : Block} (hblock : s.get? p = some block)
    (hnests : s.NestsWithin depth id) (hpath : Relation.ReflTransGen s.Holds id p) :
    Gap block.spacer (s.blockWithin depth id) (t.blockWithin depth id) ∧
      (s.IsRoutine id none → Gap block.spacer (s.bodyWithin depth id) (t.bodyWithin depth id)) := by
  have hroot {b c : BlockId} (hc : s.Holds b c) : s.rootOf c = some b := by
    have hcount := List.count_pos_iff.mpr hc
    rw [hheld] at hcount
    split_ifs at hcount with hroot
    · exact hroot
    · cases hcount
  have hunique (b b' c : BlockId) (hb : s.Holds b c) (hb' : s.Holds b' c) : b = b' :=
    Option.some.inj ((hroot hb).symm.trans (hroot hb'))
  induction hnests with
  | @intro depth id b hb hchildren ih =>
    have hself : s.NestsWithin (depth + 1) id := .intro hb hchildren
    by_cases hid : id = p
    · subst hid
      obtain rfl := Option.some.inj (hb.symm.trans hblock)
      exact h.gap_at hs hends hb hchildren
    · obtain ⟨c, hc, hreaches⟩ := (hpath.cases_head).resolve_left hid
      have hmem : c ∈ b.children := by
        rwa [← childrenOf_of_get? hb]
      have hcount : b.children.count c = 1 := by
        rw [← childrenOf_of_get? hb, hheld, if_pos (hroot hc)]
      obtain ⟨hgap, hgapBody⟩ := ih c hmem hreaches
      refine h.gap_around hs hends hb hid hcount (fun d hd hdc => ⟨hchildren d hd, ?_⟩) hgap
        hgapBody
      intro hback
      rw [← childrenOf_of_get? hb] at hd
      exact hdc (eq_of_reaches hunique hself hd hc hback hreaches)

end Spaced

end Store

end LineScript
