import LineScript.Proofs.Frames
import LineScript.Proofs.LoopNames

/-!
# Everything in use is bound

Along a run, everything that the blocks refer to is bound in the frames around it. `context` keeps
the frames around each block from the time its scope is opened; the place that the block gets when
the scope is closed has the same frames.
-/
namespace LineScript

def Variable.BoundIn (frames : List Frame) (v : Variable) : Prop :=
  ∃ binder, findBinder frames v.name = some binder ∧ binder.Agrees v

/-- The variables in an element that hands nothing back are bound; the values that are handed back
are those that are bound. -/
def Element.BoundIn (frames : List Frame) (e : Element) : Prop :=
  (e.returned = [] → ∀ v ∈ e.uses, v.BoundIn frames) ∧
    ∀ content ∈ e.returned, ∃ name binder, content.name = some name ∧
      findBinder frames name = some binder ∧ binder.Stands content

/-- The header of a loop refers to a variable around the loop; the element of an array also refers
to the counter of the loop. -/
def BlockKind.BoundIn (frames : List Frame) : BlockKind → Prop
  | .arrayLoop loop =>
    loop.array.BoundIn frames ∧ loop.counter.uses = [] ∧ loop.length.uses = [loop.array] ∧
      ∃ counter, loop.counter.toVariable = .ok counter ∧
        loop.element.uses = [loop.array, counter]
  | .mapLoop loop => loop.map.BoundIn frames
  | _ => True

theorem BlockKind.boundIn_fixed (kind : BlockKind) (frames : List Frame) :
    kind.fixed.BoundIn frames ↔ kind.BoundIn frames := by
  cases kind <;> rfl

/-- An element that refers to nothing, holds nothing and binds nothing. -/
structure Element.IsBare (e : Element) : Prop where
  uses : e.uses = []
  returned : e.returned = []
  child : e.child? = none
  binding : e.binding? = none

theorem Element.IsBare.boundIn {e : Element} (h : e.IsBare) (frames : List Frame) :
    e.BoundIn frames := by
  constructor
  · rw [h.uses]
    simp
  · rw [h.returned]
    simp

theorem Element.IsBare.fits {e : Element} (h : e.IsBare) (frames : List Frame)
    (context : BlockId → List Frame) :
    e.BoundIn frames ∧ ∀ c, e.child? = some c → context c = frames := by
  refine ⟨h.boundIn frames, ?_⟩
  rw [h.child]
  simp

theorem BlockKind.frame_of_bare {kind : BlockKind} {front : List Element}
    (h : ∀ e ∈ front, e.IsBare) : kind.frame front = kind.bindings.reverse := by
  have hnone : front.filterMap Element.binding? = [] :=
    List.filterMap_eq_nil_iff.mpr fun e he => (h e he).binding
  rw [frame, hnone, List.append_nil]

namespace Store

/-- Every element is bound where it stands, and a block that it holds has the frames around it. -/
structure Scoped (s : Store) (context : BlockId → List Frame) : Prop where
  element : ∀ b block front e back, s.get? b = some block → block.elements = front ++ e :: back →
    e.BoundIn (block.kind.frame front :: context b) ∧
      ∀ c, e.child? = some c → context c = block.kind.frame front :: context b
  header : ∀ b block, s.get? b = some block → block.kind.BoundIn (context b)

variable {s t : Store} {context : BlockId → List Frame}

/-- One block takes an element at its end, or a bare one at its front; the others keep theirs. -/
theorem Scoped.change (h : s.Scoped context) {p : BlockId} {block changed : Block} {e : Element}
    (hblock : s.get? p = some block) (hchanged : t.get? p = some changed)
    (hkind : changed.kind.fixed = block.kind.fixed)
    (helements : changed.elements = block.elements ++ [e] ∨
      e.IsBare ∧ changed.elements = e :: block.elements)
    (hothers : ∀ i, i ≠ p → ∀ found, t.get? i = some found →
      ∃ old, s.get? i = some old ∧ found.elements = old.elements ∧ found.kind = old.kind)
    (hbound : e.BoundIn (s.frameOf p :: context p))
    (hchild : ∀ c, e.child? = some c → context c = s.frameOf p :: context p) :
    t.Scoped context := by
  have hframe (front : List Element) := BlockKind.frame_congr hkind front
  constructor
  · intro b found front x back hfound hsplit
    by_cases hb : b = p
    · rw [hb] at hfound ⊢
      obtain rfl := Option.some.inj (hchanged.symm.trans hfound)
      rw [hframe]
      rcases helements with helements | ⟨hbare, helements⟩
      · rw [helements] at hsplit
        rcases List.eq_nil_or_concat back with rfl | ⟨back', y, rfl⟩
        · obtain ⟨rfl, hx⟩ := List.append_inj' hsplit rfl
          obtain rfl := List.singleton_inj.mp hx
          rw [frameOf_of_get? hblock] at hbound hchild
          exact ⟨hbound, hchild⟩
        · have hsplit' : block.elements ++ [e] = (front ++ x :: back') ++ [y] := by
            rw [hsplit, List.append_assoc, List.cons_append, List.concat_eq_append]
          exact h.element p block front x back' hblock (List.append_inj' hsplit' rfl).1
      · rw [helements] at hsplit
        cases front with
        | nil =>
          obtain ⟨rfl, _⟩ := List.cons.inj hsplit
          exact hbare.fits _ context
        | cons y front' =>
          obtain ⟨rfl, hrest⟩ := List.cons.inj hsplit
          rw [BlockKind.frame_cons_of_none _ _ hbare.binding]
          exact h.element p block front' x back hblock hrest
    · obtain ⟨old, hold, helements', hkind'⟩ := hothers b hb found hfound
      rw [helements'] at hsplit
      rw [hkind']
      exact h.element b old front x back hold hsplit
  · intro b found hfound
    by_cases hb : b = p
    · rw [hb] at hfound ⊢
      obtain rfl := Option.some.inj (hchanged.symm.trans hfound)
      rw [← BlockKind.boundIn_fixed, hkind, BlockKind.boundIn_fixed]
      exact h.header p block hblock
    · obtain ⟨old, hold, _, hkind'⟩ := hothers b hb found hfound
      rw [hkind']
      exact h.header b old hold

/-- What an added element that holds no block does to its block: it stands at the end, or at the
front if it is bare. -/
theorem elements_of_append {parent : BlockId} {e : Element} (hchild : e.child? = none)
    (happend : Succeeds (Edit.append parent e) s () t) :
    ∃ block changed, s.get? parent = some block ∧ t = s.replace parent changed ∧
      changed.kind.fixed = block.kind.fixed ∧
      (changed.elements = block.elements ++ [e] ∨
        e.IsBare ∧ changed.elements = e :: block.elements) := by
  obtain ⟨block, changed, hblock, _, ht, hkind, _, helements⟩ :=
    Edit.append_childless_ok hchild happend
  refine ⟨block, changed, hblock, ht, hkind, helements.imp_right ?_⟩
  rintro ⟨d, rfl, helements⟩
  exact ⟨⟨rfl, rfl, rfl, rfl⟩, helements⟩

theorem frameOf_append {parent : BlockId} {e : Element} (hchild : e.child? = none)
    (happend : Succeeds (Edit.append parent e) s () t) :
    (∀ i, i ≠ parent → t.frameOf i = s.frameOf i) ∧
      t.frameOf parent = e.binding?.toList ++ s.frameOf parent := by
  obtain ⟨block, changed, hblock, rfl, hkind, helements⟩ := elements_of_append hchild happend
  constructor
  · intro i hi
    rw [frameOf, frameOf, s.get?_replace_of_ne hi]
  · rw [frameOf_of_get? (get?_replace_self (lt_size_of_get? hblock) changed),
      frameOf_of_get? hblock, BlockKind.frame_congr hkind]
    rcases helements with helements | ⟨hbare, helements⟩
    · rw [helements, BlockKind.frame_snoc]
    · rw [helements, BlockKind.frame_cons_of_none _ _ hbare.binding, hbare.binding]
      rfl

/-- An element that holds no block is added to a block. -/
theorem Scoped.append (h : s.Scoped context) {parent : BlockId} {e : Element}
    (happend : Succeeds (Edit.append parent e) s () t) (hchild : e.child? = none)
    (hbound : e.BoundIn (s.frameOf parent :: context parent)) : t.Scoped context := by
  obtain ⟨block, changed, hblock, rfl, hkind, helements⟩ := elements_of_append hchild happend
  apply h.change hblock (get?_replace_self (lt_size_of_get? hblock) changed) hkind helements _
    hbound (by simp [hchild])
  intro i hi found hfound
  rw [s.get?_replace_of_ne hi] at hfound
  exact ⟨found, hfound, rfl, rfl⟩

section Attach

variable {child parent : BlockId} {inner block : Block} {e : Element}

theorem frameOf_attach (hinner : s.get? child = some inner) (hblock : s.get? parent = some block)
    (hbinding : e.binding? = none) (i : BlockId) :
    (s.attach child parent inner block e).frameOf i = s.frameOf i := by
  cases hfound : (s.attach child parent inner block e).get? i with
  | none =>
    have hsize : (s.attach child parent inner block e).size ≤ i :=
      Array.getElem?_eq_none_iff.mp hfound
    rw [size_attach] at hsize
    rw [frameOf, hfound, frameOf, get?, Array.getElem?_eq_none_iff.mpr hsize]
  | some found =>
    rcases get?_attach_cases hinner hblock hfound with
      ⟨rfl, rfl⟩ | ⟨_, old, hold, hkind, helements⟩
    · rw [frameOf_of_get? hfound, frameOf_of_get? hblock, BlockKind.frame_snoc, hbinding]
      rfl
    · rw [frameOf_of_get? hfound, frameOf_of_get? hold, helements, hkind]

/-- A block is attached at the end of another one. -/
theorem Scoped.attach (h : s.Scoped context) (hinner : s.get? child = some inner)
    (hblock : s.get? parent = some block)
    (hbound : e.BoundIn (s.frameOf parent :: context parent))
    (hchild : ∀ c, e.child? = some c → context c = s.frameOf parent :: context parent) :
    (s.attach child parent inner block e).Scoped context := by
  have hchanged : (s.attach child parent inner block e).get? parent =
      some { block with elements := block.elements ++ [e] } :=
    get?_replace_self (by rw [size_replace]; exact lt_size_of_get? hblock) _
  apply h.change hblock hchanged rfl (Or.inl rfl) _ hbound hchild
  intro i hi found hfound
  obtain ⟨_, old, hold, hkind, helements⟩ :=
    (get?_attach_cases hinner hblock hfound).resolve_left fun hparent => hi hparent.1
  exact ⟨old, hold, helements, hkind⟩

end Attach

/-- New blocks start with bare elements. Only one of them gets frames around it. -/
theorem Scoped.extend (h : s.Scoped context) {made : List Block} {fresh b : Nat}
    {frames : List Frame} (hb : s.size ≤ b) (hchildren : ∀ p, ∀ c ∈ s.childrenOf p, c < s.size)
    (hbare : ∀ block ∈ made, ∀ e ∈ block.elements, e.IsBare)
    (hheader : ∀ i block, s.size ≤ i → (s.extend made fresh).get? i = some block →
      block.kind.BoundIn (Function.update context b frames i)) :
    (s.extend made fresh).Scoped (Function.update context b frames) := by
  constructor
  · intro i block front e back hblock hsplit
    have he : e ∈ block.elements := by
      rw [hsplit]
      simp
    by_cases hi : i < s.size
    · rw [get?_extend_of_lt hi] at hblock
      obtain ⟨hbound, hchild⟩ := h.element i block front e back hblock hsplit
      have hib : i ≠ b := Nat.ne_of_lt (Nat.lt_of_lt_of_le hi hb)
      rw [Function.update_of_ne hib]
      refine ⟨hbound, ?_⟩
      intro c hc
      have hmem : c ∈ s.childrenOf i := by
        rw [childrenOf_of_get? hblock]
        exact List.mem_append_right _ (List.mem_filterMap.mpr ⟨e, he, hc⟩)
      have hcb : c ≠ b := Nat.ne_of_lt (Nat.lt_of_lt_of_le (hchildren i c hmem) hb)
      rw [Function.update_of_ne hcb]
      exact hchild c hc
    · rw [get?_extend, if_neg hi] at hblock
      exact (hbare block (List.mem_of_getElem? hblock) e he).fits _ _
  · intro i block hblock
    by_cases hi : i < s.size
    · rw [get?_extend_of_lt hi] at hblock
      have hib : i ≠ b := Nat.ne_of_lt (Nat.lt_of_lt_of_le hi hb)
      rw [Function.update_of_ne hib]
      exact h.header i block hblock
    · exact hheader i block (Nat.le_of_not_lt hi) hblock

end Store

namespace Scopes

theorem Adds.binding? {s : Scopes} {c : Construct} {e : Element} (h : s.Adds c e) :
    e.binding? = none := by
  cases h <;> rfl

/-- What the open scopes and the store have in common while a script is compiled. -/
structure Scoped (s : Scopes) (context : BlockId → List Frame) : Prop where
  store : s.store.Scoped context
  framed : s.store.Framed context s.all
  /-- A block with frames around it is open or held by an element. -/
  placed : ∀ b, context b ≠ [] → b ∈ s.openBlocks ∨
    ∃ p, b ∈ s.store.childrenOf p ∧
      ∀ kind, s.store.kindOf p = some kind → kind.companion ≠ some b

/-- The frames around each block once block `b` is opened at the current place. -/
def contextInside (s : Scopes) (context : BlockId → List Frame) (b : BlockId) :
    BlockId → List Frame :=
  Function.update context b (s.store.frameOf s.current.block :: context s.current.block)

variable {s t : Scopes} {context : BlockId → List Frame}

namespace Scoped

theorem exists_binder (h : s.Scoped context) {name : String} {value : Value}
    (hvalue : s.resolve name = some value) :
    ∃ binder, findBinder (s.store.frameOf s.current.block :: context s.current.block) name =
      some binder ∧ binder.Stands value := by
  obtain ⟨binder, hbinder, hstands⟩ := h.framed.exists_binder hvalue
  refine ⟨binder, ?_, hstands⟩
  cases h.framed with
  | cons _ hcontext _ =>
    rw [hcontext]
    exact hbinder

theorem boundIn (h : s.Scoped context) {v : Variable} (hv : s.Sees v) :
    v.BoundIn (s.store.frameOf s.current.block :: context s.current.block) := by
  obtain ⟨value, hvalue, hvariable⟩ := requireVariable_ok hv
  obtain ⟨binder, hbinder, hstands⟩ := h.exists_binder hvalue
  exact ⟨binder, hbinder, hstands.agrees hvariable⟩

theorem adds (h : s.Scoped context) (hnamed : s.Named) {c : Construct} {e : Element}
    (hadds : s.Adds c e) :
    e.BoundIn (s.store.frameOf s.current.block :: context s.current.block) := by
  refine ⟨fun hnone v hv => h.boundIn (hadds.uses hnamed hnone v hv), ?_⟩
  intro content hcontent
  obtain ⟨name, hname⟩ := hadds.returned content hcontent
  obtain ⟨binder, hbinder, hstands⟩ := h.exists_binder hname
  exact ⟨name, binder, hnamed.name_of_resolve hname, hbinder, hstands⟩

theorem bare_of_mem_fileBlock {name : String} {isModule : Bool} {deps : List Dependency}
    {e : Element} (he : e ∈ (fileBlock name isModule deps).elements) : e.IsBare := by
  rcases mem_fileBlock he with ⟨d, rfl⟩ | rfl <;> exact ⟨rfl, rfl, rfl, rfl⟩

theorem frameOf_start (name : String) (isModule : Bool) (deps : List Dependency) (b : BlockId) :
    (Scopes.start name isModule deps).store.frameOf b = [] := by
  cases hblock : (Scopes.start name isModule deps).store.get? b with
  | none => rw [Store.frameOf, hblock]
  | some block =>
    obtain ⟨_, rfl⟩ := get?_start hblock
    rw [Store.frameOf_of_get? hblock, BlockKind.frame_of_bare fun e he => bare_of_mem_fileBlock he]
    rfl

theorem start (name : String) (isModule : Bool) (deps : List Dependency) :
    (Scopes.start name isModule deps).Scoped fun _ => [] := by
  refine ⟨⟨?_, ?_⟩, ?_, fun b hb => absurd rfl hb⟩
  · intro b block front e back hblock hsplit
    obtain ⟨_, rfl⟩ := get?_start hblock
    have he : e.IsBare := bare_of_mem_fileBlock (by rw [hsplit]; simp)
    exact he.fits _ _
  · intro b block hblock
    obtain ⟨_, rfl⟩ := get?_start hblock
    trivial
  · refine .cons ?_ rfl .nil
    change List.Forall₂ Represents [] ((Scopes.start name isModule deps).store.frameOf 0)
    rw [frameOf_start]
    exact .nil

theorem placed_of_sameLinks (h : s.Scoped context) (hlinks : s.SameLinks t) (b : BlockId)
    (hb : context b ≠ []) :
    b ∈ t.openBlocks ∨ ∃ p, b ∈ t.store.childrenOf p ∧
      ∀ kind, t.store.kindOf p = some kind → kind.companion ≠ some b := by
  simp only [hlinks.openBlocks, hlinks.children, hlinks.kind]
  exact h.placed b hb

/-- A move that adds an element without a binding and leaves the tables alone. -/
theorem of_append (h : s.Scoped context) {parent : BlockId} {e : Element} {store : Store}
    (happend : Succeeds (Edit.append parent e) s.store () store) (hchild : e.child? = none)
    (hbinding : e.binding? = none)
    (hbound : e.BoundIn (s.store.frameOf parent :: context parent)) (log : List LogEntry) :
    Scoped { s with store := store, log := log } context := by
  have hstore := h.store.append happend hchild hbound
  obtain ⟨hothers, hparent⟩ := Store.frameOf_append hchild happend
  have hframe (i : BlockId) : store.frameOf i = s.store.frameOf i := by
    by_cases hi : i = parent
    · rw [hi, hparent, hbinding]
      rfl
    · exact hothers i hi
  exact ⟨hstore, h.framed.congr (fun scope _ => hframe scope.block) fun _ _ => rfl,
    h.placed_of_sameLinks (sameLinks_of_append hchild rfl rfl happend)⟩

theorem stays (h : s.Scoped context) (hlinked : s.Linked) (hnamed : s.Named) {c : Construct}
    (hmove : s.Stays c t) : t.Scoped context := by
  cases hmove with
  | note log => exact ⟨h.store, h.framed, h.placed⟩
  | add log hadds happend =>
    exact h.of_append happend hadds.child? hadds.binding? (h.adds hnamed hadds) log
  | hoist log _ happend =>
    exact h.of_append happend rfl rfl (Element.IsBare.boundIn ⟨rfl, rfl, rfl, rfl⟩ _) log
  | package log _ happend =>
    exact h.of_append happend rfl rfl (Element.IsBare.boundIn ⟨rfl, rfl, rfl, rfl⟩ _) log
  | @declare type name expression kind element source value store log _ hsource hvalue happend =>
    have hbound : (Element.value value).BoundIn
        (s.store.frameOf s.current.block :: context s.current.block) := by
      refine ⟨?_, by simp [Element.returned]⟩
      rw [Element.uses, Value.uses_of_make hvalue]
      intro _ v hv
      exact h.boundIn (Source.uses_of_plain (hnamed.source_plain hsource) v hv)
    have hstore := h.store.append happend rfl hbound
    obtain ⟨hothers, hcurrent⟩ := Store.frameOf_append rfl happend
    have houterFrame : ∀ scope ∈ s.outer, store.frameOf scope.block = s.store.frameOf scope.block :=
      fun scope hscope => hothers _ (Nat.ne_of_lt (hlinked.outer_lt_current hscope))
    refine ⟨hstore, ?_, h.placed_of_sameLinks (sameLinks_of_append rfl rfl rfl happend)⟩
    cases h.framed with
    | cons hvalues hcontext houter =>
      refine .cons ?_ ?_ (houter.congr houterFrame fun _ _ => rfl)
      · change List.Forall₂ Represents ((name, value) :: s.current.values)
          (store.frameOf s.current.block)
        rw [hcurrent, Element.binding?, (Value.make_ok hvalue).2.1]
        exact .cons ⟨rfl, rfl⟩ hvalues
      · change context s.current.block = _
        rw [hcontext]
        exact List.map_congr_left fun scope hscope => (houterFrame scope hscope).symm

theorem binding?_mergedElement (scope : Scope) : (Session.mergedElement scope).binding? = none := by
  unfold Session.mergedElement
  cases scope.merge <;> rfl

theorem boundIn_mergedElement (scope : Scope) (frames : List Frame) :
    (Session.mergedElement scope).BoundIn frames := by
  unfold Session.mergedElement
  cases scope.merge <;> simp [Element.BoundIn, Element.uses, Statement.uses, Element.returned]

/-- A block that is attached is held by an element: an open block is no companion. -/
theorem placed_attach (h : s.Scoped context) (hlinked : s.Linked) {parent : Scope}
    {outer : List Scope} {block inner : Block} (houter : s.outer = parent :: outer)
    (hne : s.current.block ≠ parent.block) (hblock : s.store.get? parent.block = some block)
    (hinner : s.store.get? s.current.block = some inner) (hroot : inner.root = none) (b : BlockId)
    (hb : context b ≠ []) :
    b ∈ (parent :: outer).map Scope.block ∨
      ∃ p, b ∈ (s.store.attach s.current.block parent.block inner block
          (Session.mergedElement s.current)).childrenOf p ∧
        ∀ kind, (s.store.attach s.current.block parent.block inner block
          (Session.mergedElement s.current)).kindOf p = some kind → kind.companion ≠ some b := by
  simp only [Store.childrenOf_attach hinner hblock (child?_mergedElement s.current),
    Store.kindOf_attach hinner hblock hne]
  rcases h.placed b hb with hopen | ⟨p, hp, hkind⟩
  · rw [openBlocks, all, houter, List.map_cons, List.mem_cons] at hopen
    rcases hopen with rfl | hopen
    · refine Or.inr ⟨parent.block, by simp, ?_⟩
      intro kind hkind hcompanion
      have hmem : s.current.block ∈ s.store.childrenOf parent.block := by
        rw [Store.kindOf_of_get? hblock] at hkind
        rw [Store.childrenOf_of_get? hblock, Block.children, ← block.kind.companion_fixed,
          Option.some.inj hkind, hcompanion]
        simp
      rw [hlinked.mem_childrenOf, Store.rootOf_of_get? hinner, hroot] at hmem
      cases hmem
    · exact Or.inl hopen
  · refine Or.inr ⟨p, ?_, hkind⟩
    split_ifs
    · exact List.mem_append_left _ hp
    · exact hp

theorem closes (h : s.Scoped context) (hlinked : s.Linked) (hmove : s.Closes t) :
    t.Scoped context := by
  obtain ⟨parent, outer, block, inner, log, houter, hgt, hblock, _, hinner, hroot, _, rfl⟩ :=
    hlinked.attach_of_closes hmove
  have hframed := h.framed
  rw [all, houter] at hframed
  cases hframed with
  | cons hvalues hcontext hrest =>
    have hparent : context s.current.block =
        s.store.frameOf parent.block :: context parent.block := by
      cases hrest with
      | cons _ hcontext' _ => rw [hcontext, hcontext', List.map_cons]
    have hchild : ∀ c, (Session.mergedElement s.current).child? = some c →
        context c = s.store.frameOf parent.block :: context parent.block := by
      intro c hc
      rw [child?_mergedElement] at hc
      exact Option.some.inj hc ▸ hparent
    have hstore := h.store.attach hinner hblock (boundIn_mergedElement s.current _) hchild
    have hframe := Store.frameOf_attach hinner hblock (binding?_mergedElement s.current)
    exact ⟨hstore, hrest.congr (fun scope _ => hframe scope.block) fun _ _ => rfl,
      h.placed_attach hlinked houter (Nat.ne_of_gt hgt) hblock hinner hroot⟩

theorem bare_of_opening {c : Construct} {o : Opened} (hopening : s.Opening c o) :
    ∀ block ∈ o.made, ∀ e ∈ block.elements, e.IsBare := by
  have hroutine (name : Option String) (parameters : List BoundParameter) (mode : BindingMode)
      (declared : Option Kind) :
      ∀ e ∈ (routineBlock name parameters mode declared).elements, e.IsBare := by
    intro e he
    cases parameters with
    | nil => cases he
    | cons first rest =>
      obtain rfl := List.mem_singleton.mp he
      exact ⟨rfl, rfl, rfl, rfl⟩
  cases hopening with
  | plain | condition _ _ _ | mapLoop _ _ _ | arrayLoop _ _ _ _ _ _ _ => simp [Block.ofKind]
  | routine _ _ => simpa using hroutine _ _ _ _
  | signal _ => simpa using hroutine _ _ _ _
  | attempt _ =>
    intro block hblock e he
    rcases List.mem_cons.mp hblock with rfl | hblock
    · obtain rfl := List.mem_singleton.mp he
      exact ⟨rfl, rfl, rfl, rfl⟩
    · obtain rfl := List.mem_singleton.mp hblock
      cases he

theorem get?_opened {c : Construct} {o : Opened} (hopening : s.Opening c o)
    (log : List LogEntry) :
    s.store.size ≤ (s.opened o log).current.block ∧
      ∃ block, o.made.getLast? = some block ∧
        (s.opened o log).store.get? (s.opened o log).current.block = some block := by
  rcases hopening.made_cases with ⟨_, block, hmade, _⟩ | ⟨_, first, second, hmade, _⟩
  · have hcurrent : (s.opened o log).current.block = s.store.size := by
      simp [Scopes.opened, hmade]
    refine ⟨Nat.le_of_eq hcurrent.symm, block, by rw [hmade]; rfl, ?_⟩
    rw [hcurrent, Scopes.opened, hmade]
    exact s.store.get?_extend_new _ _ 0
  · have hcurrent : (s.opened o log).current.block = s.store.size + 1 := by
      simp [Scopes.opened, hmade]
    refine ⟨by rw [hcurrent]; exact Nat.le_succ _, second, by rw [hmade]; rfl, ?_⟩
    rw [hcurrent, Scopes.opened, hmade]
    exact s.store.get?_extend_new _ _ 1

/-- The names that a new scope binds are those of the kind of its block. -/
theorem represents_of_opening {c : Construct} {o : Opened} (hopening : s.Opening c o)
    (log : List LogEntry) :
    List.Forall₂ Represents o.values
      ((s.opened o log).store.frameOf (s.opened o log).current.block) := by
  obtain ⟨_, block, hblock, hget⟩ := get?_opened hopening log
  rw [Store.frameOf_of_get? hget,
    BlockKind.frame_of_bare (bare_of_opening hopening block (List.mem_of_getLast? hblock))]
  cases hopening with
  | plain | condition _ _ _ | attempt _ =>
    obtain rfl := Option.some.inj hblock
    exact .nil
  | mapLoop _ _ _ =>
    obtain rfl := Option.some.inj hblock
    exact .cons ⟨rfl, rfl⟩ .nil
  | arrayLoop _ _ _ _ _ _ hitem =>
    rw [List.getLast?_singleton, Option.some.injEq] at hblock
    subst hblock
    simp only [Block.ofKind, BlockKind.bindings, (Value.make_ok hitem).2.1]
    exact .cons ⟨rfl, rfl⟩ .nil
  | @signal name parameter signal hsignal =>
    obtain rfl := Option.some.inj hblock
    cases parameter with
    | none => exact .nil
    | some p => exact .cons ⟨rfl, rfl⟩ .nil
  | @routine name parameters returns declared bound hdeclared hbound =>
    rw [List.getLast?_singleton, Option.some.injEq] at hblock
    subst hblock
    rw [List.forall₂_reverse_iff]
    simp only [routineBlock, BlockKind.bindings, List.map_map, List.forall₂_map_left_iff,
      List.forall₂_map_right_iff, List.forall₂_same]
    intro q hq
    obtain ⟨parameter, _, hparameter⟩ := exists_of_mem_mapM hbound hq
    obtain ⟨_, kind, element, hvalue, _⟩ := Session.parameterValue_ok hparameter
    refine ⟨rfl, ?_⟩
    change q.2.uses = []
    rw [Value.uses_of_make hvalue, Source.uses]

theorem header_of_opening (h : s.Scoped context) (hnamed : s.Named) {c : Construct} {o : Opened}
    (hopening : s.Opening c o) :
    (∃ block, o.made = [block] ∧
        block.kind.BoundIn (s.store.frameOf s.current.block :: context s.current.block)) ∨
      ∀ block ∈ o.made, ∀ frames, block.kind.BoundIn frames := by
  cases hopening with
  | plain | condition _ _ _ | attempt _ | routine _ _ | signal _ =>
    right
    simp [Block.ofKind, routineBlock, BlockKind.BoundIn]
  | mapLoop hcollection _ hlooped =>
    exact Or.inl ⟨_, rfl, h.boundIn (hnamed.sees_of_toVariable hcollection hlooped)⟩
  | arrayLoop hcollection _ hlooped hcounter hlength hcounted hitem =>
    refine Or.inl ⟨_, rfl, h.boundIn (hnamed.sees_of_toVariable hcollection hlooped), ?_, ?_,
      _, hcounted, ?_⟩
    · rw [Value.uses_of_make hcounter, Source.uses]
    · rw [Value.uses_of_make hlength, Source.uses, MethodCall.uses, argumentUses]
    · rw [Value.uses_of_make hitem, Source.uses, MethodCall.uses, argumentUses, argumentUses,
        Argument.uses, List.append_nil]

theorem store_opened (h : s.Scoped context) (hlinked : s.Linked) (hnamed : s.Named)
    {c : Construct} {o : Opened} (hopening : s.Opening c o) (log : List LogEntry) :
    (s.opened o log).store.Scoped (s.contextInside context (s.opened o log).current.block) := by
  obtain ⟨hle, _⟩ := get?_opened hopening log
  apply h.store.extend hle (fun p c hc => hlinked.child_lt_size hc) (bare_of_opening hopening)
  intro i found hi hfound
  have hmem : found ∈ o.made := by
    refine (Store.get?_extend_cases hfound).resolve_right fun hbefore => ?_
    exact Nat.not_lt_of_le hi (Store.lt_size_of_get? hbefore)
  rcases h.header_of_opening hnamed hopening with ⟨only, hmade, hbound⟩ | hany
  · rw [hmade, List.mem_singleton] at hmem
    have hlt := Store.lt_size_of_get? hfound
    rw [Store.size_extend, hmade] at hlt
    have hi' : i = (s.opened o log).current.block := by
      rw [Scopes.opened, hmade]
      exact Nat.le_antisymm (Nat.le_of_lt_succ hlt) hi
    rw [hmem, hi', Function.update_self]
    exact hbound
  · exact hany found hmem _

/-- The scopes that were open keep their frames, and the new one has the frames of all of them
around it. -/
theorem framed_opened (h : s.Scoped context) (hlinked : s.Linked) {c : Construct} {o : Opened}
    (hopening : s.Opening c o) (log : List LogEntry) :
    (s.opened o log).store.Framed (s.contextInside context (s.opened o log).current.block)
      (s.opened o log).all := by
  obtain ⟨hle, _⟩ := get?_opened hopening log
  have hold (scope : Scope) (hscope : scope ∈ s.all) : scope.block < s.store.size :=
    hlinked.openBlocks_lt _ (List.mem_map_of_mem hscope)
  have hframe (scope : Scope) (hscope : scope ∈ s.all) :
      (s.opened o log).store.frameOf scope.block = s.store.frameOf scope.block := by
    rw [Store.frameOf, Store.frameOf, Scopes.opened, Store.get?_extend_of_lt (hold scope hscope)]
  have hsame : (s.opened o log).store.Framed
      (s.contextInside context (s.opened o log).current.block) s.all :=
    h.framed.congr hframe fun scope hscope =>
      Function.update_of_ne (Nat.ne_of_lt (Nat.lt_of_lt_of_le (hold scope hscope) hle)) _ _
  have hcontext : s.store.frameOf s.current.block :: context s.current.block =
      s.all.map fun scope => s.store.frameOf scope.block := by
    cases h.framed with
    | cons _ hcontext _ => rw [hcontext, all, List.map_cons]
  refine .cons (represents_of_opening hopening log) ?_ ?_
  · rw [contextInside, Function.update_self, hcontext]
    exact List.map_congr_left fun scope hscope => (hframe scope hscope).symm
  · cases hsame with
    | cons hvalues hcontext' houter => exact .cons hvalues hcontext' houter

theorem placed_opened (h : s.Scoped context) (o : Opened) (log : List LogEntry) (b : BlockId)
    (hb : s.contextInside context (s.opened o log).current.block b ≠ []) :
    b ∈ (s.opened o log).openBlocks ∨ ∃ p, b ∈ (s.opened o log).store.childrenOf p ∧
      ∀ kind, (s.opened o log).store.kindOf p = some kind → kind.companion ≠ some b := by
  by_cases hcurrent : b = (s.opened o log).current.block
  · rw [hcurrent]
    exact Or.inl List.mem_cons_self
  rw [contextInside, Function.update_of_ne hcurrent] at hb
  rcases h.placed b hb with hopen | ⟨p, hp, hkind⟩
  · exact Or.inl (List.mem_cons_of_mem _ hopen)
  · obtain ⟨root, hroot, _⟩ := Store.exists_of_mem_childrenOf hp
    have hlt := Store.lt_size_of_get? hroot
    refine Or.inr ⟨p, ?_, ?_⟩
    · rw [Scopes.opened, Store.childrenOf_extend_of_lt hlt]
      exact hp
    · rw [Scopes.opened, Store.kindOf, Store.get?_extend_of_lt hlt]
      exact hkind

theorem opened (h : s.Scoped context) (hlinked : s.Linked) (hnamed : s.Named) {c : Construct}
    {o : Opened} (hopening : s.Opening c o) (log : List LogEntry) :
    (s.opened o log).Scoped (s.contextInside context (s.opened o log).current.block) :=
  ⟨h.store_opened hlinked hnamed hopening log, h.framed_opened hlinked hopening log,
    h.placed_opened o log⟩

end Scoped

theorem scoped_of_runs {name : String} {isModule : Bool} {deps : List Dependency}
    {lines : List Construct} (hruns : (start name isModule deps).Runs lines s) :
    s.Linked ∧ ∃ context, s.Scoped context := by
  obtain ⟨hlinked, _, hscoped⟩ := hruns.invariant_of_start (fun _ s => ∃ context, s.Scoped context)
    ⟨_, .start name isModule deps⟩
    (fun _ _ _ _ hlinked hnamed hmove ⟨context, h⟩ => ⟨context, h.stays hlinked hnamed hmove⟩)
    (fun _ _ _ _ _ h => h)
    (fun _ _ _ _ log hlinked hnamed _ hopening ⟨_, h⟩ =>
      ⟨_, h.opened hlinked hnamed hopening log⟩)
    (fun _ _ _ _ hlinked _ _ hmove ⟨context, h⟩ => ⟨context, h.closes hlinked hmove⟩)
  exact ⟨hlinked, hscoped⟩

/-- The names that a new block binds are those of its line. -/
theorem Opening.boundNames {c : Construct} {o : Opened} (h : s.Opening c o) :
    ∀ block ∈ o.made, ∀ binding ∈ block.kind.bindings, binding.1 ∈ c.boundNames := by
  cases h with
  | plain | condition _ _ _ | attempt _ => simp [Block.ofKind, BlockKind.bindings]
  | mapLoop _ _ _ => simp [Block.ofKind, BlockKind.bindings, Construct.boundNames]
  | arrayLoop _ _ _ _ _ _ hitem =>
    simp [Block.ofKind, BlockKind.bindings, Construct.boundNames, (Value.make_ok hitem).2.1]
  | signal _ => simp [routineBlock, BlockKind.bindings, Construct.boundNames]
  | @routine name parameters returns declared bound hdeclared hbound =>
    rw [List.forall_mem_singleton]
    simp only [routineBlock, BlockKind.bindings, List.map_map, List.forall_mem_map]
    intro q hq
    obtain ⟨parameter, hparameter, hvalue⟩ := exists_of_mem_mapM hbound hq
    obtain ⟨hname, _⟩ := Session.parameterValue_ok hvalue
    exact List.mem_map.mpr ⟨parameter, hparameter, hname.symm⟩

end Scopes

namespace Store

/-- The blocks bind no other names than these. -/
def BindsOnly (s : Store) (names : List String) : Prop :=
  ∀ b, ∀ binding ∈ s.frameOf b, binding.1 ∈ names

theorem BindsOnly.append {s t : Store} {names : List String} (h : s.BindsOnly names)
    {parent : BlockId} {e : Element} (hchild : e.child? = none)
    (happend : Succeeds (Edit.append parent e) s () t)
    (hbinding : ∀ binding ∈ e.binding?, binding.1 ∈ names) : t.BindsOnly names := by
  obtain ⟨hothers, hparent⟩ := frameOf_append hchild happend
  intro b binding hb
  by_cases hbp : b = parent
  · rw [hbp, hparent, List.mem_append, Option.mem_toList] at hb
    exact hb.elim (hbinding binding) (h parent binding)
  · rw [hothers b hbp] at hb
    exact h b binding hb

end Store

namespace Scopes

variable {s t : Scopes} {names : List String}

theorem Stays.bindsOnly {c : Construct} (hmove : s.Stays c t) (hc : c.boundNames ⊆ names)
    (h : s.store.BindsOnly names) : t.store.BindsOnly names := by
  cases hmove with
  | note log => exact h
  | add log hadds happend => exact h.append hadds.child? happend (by simp [hadds.binding?])
  | hoist log _ happend => exact h.append rfl happend (by simp [Element.binding?])
  | package log _ happend => exact h.append rfl happend (by simp [Element.binding?])
  | declare log _ _ hvalue happend =>
    refine h.append rfl happend ?_
    rw [Element.binding?, (Value.make_ok hvalue).2.1]
    simpa using hc List.mem_cons_self

theorem Opening.bindsOnly {c : Construct} {o : Opened} (hopening : s.Opening c o)
    (hc : c.boundNames ⊆ names) (h : s.store.BindsOnly names) :
    (s.store.extend o.made o.fresh).BindsOnly names := by
  intro b binding hb
  cases hfound : (s.store.extend o.made o.fresh).get? b with
  | none =>
    rw [Store.frameOf, hfound] at hb
    cases hb
  | some found =>
    rw [Store.frameOf_of_get? hfound] at hb
    rcases Store.get?_extend_cases hfound with hmade | hold
    · rw [BlockKind.frame_of_bare (Scoped.bare_of_opening hopening found hmade),
        List.mem_reverse] at hb
      exact hc (hopening.boundNames found hmade binding hb)
    · rw [← Store.frameOf_of_get? hold] at hb
      exact h b binding hb

/-- Only the names of lines are bound. -/
theorem bindsOnly_of_runs {name : String} {isModule : Bool} {deps : List Dependency}
    {lines : List Construct} (hruns : (start name isModule deps).Runs lines s) :
    s.store.BindsOnly (lines.flatMap Construct.boundNames) := by
  have hline (c : Construct) (hc : c ∈ lines) :
      c.boundNames ⊆ lines.flatMap Construct.boundNames :=
    fun _ hname => List.mem_flatMap.mpr ⟨c, hc, hname⟩
  refine (hruns.invariant_of_start_along (fun _ c => c ∈ lines)
    (fun _ s => s.store.BindsOnly (lines.flatMap Construct.boundNames)) ?_ ?_ ?_ ?_ ?_ ?_).2.2
  · rintro front c back hsplit
    rw [hsplit]
    exact List.mem_append_right _ List.mem_cons_self
  · intro b binding hb
    rw [Scoped.frameOf_start] at hb
    cases hb
  · intro _ c s t hc _ _ hmove h
    exact hmove.bindsOnly (hline c hc) h
  · exact fun _ _ _ _ _ h => h
  · intro _ c s o log hc _ _ _ hopening h
    exact hopening.bindsOnly (hline c hc) h
  · intro _ c s t hlinked _ _ hmove h b binding hb
    obtain ⟨parent, outer, block, inner, log, _, _, hblock, _, hinner, _, _, rfl⟩ :=
      hlinked.attach_of_closes hmove
    rw [Store.frameOf_attach hinner hblock (Scoped.binding?_mergedElement s.current)] at hb
    exact h b binding hb

end Scopes

end LineScript
