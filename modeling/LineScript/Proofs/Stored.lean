import LineScript.Proofs.Settled

/-!
# What a script stores has a text

Every element that a script puts into a store, and every header of a loop, is settled: its text
does not depend on other blocks, but for the blocks that it holds.
-/
namespace LineScript

/-- A value handed back is written by its name or as it stands. -/
def ReturnedValue.isNamed : ReturnedValue → Bool
  | .value content => content.name.isSome
  | .raw _ => true

def Element.Settled (s : Store) : Element → Prop
  | .value v => v.Settled
  | .method call => call.Settled
  | .statement (.giveBack r) => r.values.all ReturnedValue.isNamed = true
  | .statement (.assign a) => a.value.Settled
  | .statement (.signal _ routine) => s.IsRoutine routine none
  | _ => True

def BlockKind.Settled : BlockKind → Prop
  | .arrayLoop loop => loop.counter.Settled ∧ loop.length.Settled ∧ loop.element.Settled
  | _ => True

theorem Element.Settled.mono {s t : Store} {element : Element} (h : element.Settled s)
    (hroutine : ∀ id name, s.IsRoutine id name → t.IsRoutine id name) : element.Settled t := by
  cases element with
  | text _ | block _ | value _ | method _ => exact h
  | statement content =>
    cases content with
    | dependency _ | binding _ | giveBack _ | print _ | assign _ | exit _ | package _ => exact h
    | signal _ routine => exact hroutine routine none h

namespace Store

variable {s t : Store}

/-- The element belongs to a block of the store. -/
def Stores (s : Store) (e : Element) : Prop :=
  ∃ id block, s.get? id = some block ∧ e ∈ block.elements

/-- An element that is added to a block and refers to none leaves the kinds of blocks as they are,
and no other element comes in. -/
theorem stores_append {parent : BlockId} {element : Element}
    (happend : Succeeds (Edit.append parent element) s () t) (hchild : element.child? = none) :
    (∀ id, t.kindOf id = s.kindOf id) ∧ ∀ e, t.Stores e → s.Stores e ∨ e = element := by
  obtain ⟨block, changed, hblock, _, rfl, hkind, _, helements⟩ :=
    Edit.append_childless_ok hchild happend
  refine ⟨kindOf_replace hblock hkind, ?_⟩
  rintro e ⟨id, found, hfound, he⟩
  rcases get?_replace_cases hfound with rfl | hfound
  · rcases helements with helements | ⟨_, _, helements⟩
    · rw [helements, List.mem_append, List.mem_singleton] at he
      exact he.imp_left fun he => ⟨parent, block, hblock, he⟩
    · rw [helements, List.mem_cons] at he
      exact he.symm.imp_left fun he => ⟨parent, block, hblock, he⟩
  · exact Or.inl ⟨id, found, hfound, he⟩

theorem stores_extend {made : List Block} {fresh : Nat} {e : Element}
    (h : (s.extend made fresh).Stores e) : s.Stores e ∨ ∃ block ∈ made, e ∈ block.elements := by
  obtain ⟨id, found, hfound, he⟩ := h
  rcases get?_extend_cases hfound with hmem | hfound
  · exact Or.inr ⟨found, hmem, he⟩
  · exact Or.inl ⟨id, found, hfound, he⟩

theorem stores_attach {child parent : BlockId} {inner block : Block} {element e : Element}
    (hinner : s.get? child = some inner) (hblock : s.get? parent = some block)
    (h : (s.attach child parent inner block element).Stores e) : s.Stores e ∨ e = element := by
  obtain ⟨id, found, hfound, he⟩ := h
  rcases get?_attach_cases hinner hblock hfound with ⟨_, rfl⟩ | ⟨_, old, hold, _, helements⟩
  · rw [List.mem_append, List.mem_singleton] at he
    exact he.imp_left fun he => ⟨parent, block, hblock, he⟩
  · rw [helements] at he
    exact Or.inl ⟨id, old, hold, he⟩

structure Settled (s : Store) : Prop where
  kind : ∀ id kind, s.kindOf id = some kind → kind.Settled
  element : ∀ e, s.Stores e → e.Settled s

theorem IsRoutine.of_kindOf {id : BlockId} {name : Option String} (h : s.IsRoutine id name)
    (hkind : ∀ i, t.kindOf i = s.kindOf i) : t.IsRoutine id name := by
  obtain ⟨info, hinfo, hname⟩ := h
  exact ⟨info, by rw [hkind, hinfo], hname⟩

namespace Settled

theorem append (h : s.Settled) {parent : BlockId} {element : Element}
    (happend : Succeeds (Edit.append parent element) s () t) (hchild : element.child? = none)
    (helement : element.Settled s) : t.Settled := by
  obtain ⟨hkinds, hstores⟩ := stores_append happend hchild
  have hroutine (id : BlockId) (name : Option String) (hid : s.IsRoutine id name) :=
    hid.of_kindOf hkinds
  refine ⟨fun id kind hid => h.kind id kind (hkinds id ▸ hid), fun e he => ?_⟩
  rcases hstores e he with he | rfl
  · exact (h.element e he).mono hroutine
  · exact helement.mono hroutine

theorem extend (h : s.Settled) {made : List Block} (fresh : Nat)
    (hkinds : ∀ block ∈ made, block.kind.fixed.Settled)
    (helements : ∀ block ∈ made, ∀ e ∈ block.elements, e.Settled s) :
    (s.extend made fresh).Settled := by
  constructor
  · intro id kind hkind
    rcases kindOf_extend hkind with hkind | ⟨_, block, hmem, rfl⟩
    · exact h.kind id kind hkind
    · exact hkinds block hmem
  · intro e he
    have hroutine (id : BlockId) (name : Option String) (hid : s.IsRoutine id name) :=
      hid.extend made fresh
    rcases stores_extend he with he | ⟨block, hmem, he⟩
    · exact (h.element e he).mono hroutine
    · exact (helements block hmem e he).mono hroutine

theorem attach (h : s.Settled) {child parent : BlockId} {inner block : Block} {element : Element}
    (hinner : s.get? child = some inner) (hblock : s.get? parent = some block)
    (hne : child ≠ parent) (helement : element.Settled s) :
    (s.attach child parent inner block element).Settled := by
  have hkinds := kindOf_attach hinner hblock hne element
  have hroutine (id : BlockId) (name : Option String) (hid : s.IsRoutine id name) :=
    hid.of_kindOf hkinds
  refine ⟨fun id kind hid => h.kind id kind (hkinds id ▸ hid), fun e he => ?_⟩
  rcases stores_attach hinner hblock he with he | rfl
  · exact (h.element e he).mono hroutine
  · exact helement.mono hroutine

end Settled

end Store

namespace Scopes

variable {s t : Scopes}

theorem Adds.settled (hnamed : s.Named) {c : Construct} {element : Element}
    (h : s.Adds c element) : element.Settled s.store := by
  cases h with
  | blank | print _ | exit _ => trivial
  | @call _ _ _ _ arguments hreceiver _ _ =>
    exact MethodCall.Plain.settled
      ⟨hnamed.sees_of_require hreceiver, hnamed.methodArguments_plain arguments⟩
  | assign _ hsource hvalue hassignment =>
    obtain ⟨_, rfl⟩ := Assignment.make_ok hassignment
    exact Value.settled_of_make hvalue (hnamed.source_plain hsource)
  | giveBack hvalues =>
    simp only [Element.Settled, Return.ofValues, List.all_eq_true]
    intro value hvalue
    obtain ⟨expression, _, hexpression⟩ := exists_of_mem_mapM hvalues hvalue
    rcases returnedValue_ok hexpression with ⟨name, content, hcontent, rfl⟩ | ⟨text, rfl⟩
    · rw [ReturnedValue.isNamed, hnamed.name_of_resolve hcontent]
      rfl
    · rfl

theorem Opening.settled {c : Construct} {o : Opened} (h : s.Opening c o) :
    (∀ block ∈ o.made, block.kind.fixed.Settled) ∧
      ∀ block ∈ o.made, ∀ e ∈ block.elements, e.Settled s.store := by
  cases h with
  | plain => simp [Block.ofKind, BlockKind.fixed, BlockKind.Settled]
  | condition _ _ _ => simp [Block.ofKind, BlockKind.fixed, BlockKind.Settled]
  | mapLoop _ _ _ => simp [Block.ofKind, BlockKind.fixed, BlockKind.Settled]
  | attempt _ => simp [Block.ofKind, BlockKind.fixed, BlockKind.Settled, Element.Settled]
  | routine _ _ => simp [routineBlock, BlockKind.fixed, BlockKind.Settled, Element.Settled]
  | signal _ => simp [routineBlock, BlockKind.fixed, BlockKind.Settled, Element.Settled]
  | arrayLoop _ _ _ hcounter hlength _ hitem =>
    refine ⟨?_, by simp [Block.ofKind]⟩
    intro block hblock
    obtain rfl := List.mem_singleton.mp hblock
    refine ⟨Value.settled_of_make (P := fun _ => True) hcounter trivial,
      Value.settled_of_make (P := fun _ => True) hlength ⟨trivial, by simp⟩,
      Value.settled_of_make (P := fun _ => True) hitem ⟨trivial, ?_⟩⟩
    simp [Argument.Plain]

theorem mergedElement_settled (hnamed : s.Named) :
    (Session.mergedElement s.current).Settled s.store := by
  unfold Session.mergedElement
  cases hmerge : s.current.merge with
  | block => trivial
  | handler signal => exact (hnamed s.current List.mem_cons_self).handler signal hmerge

theorem settled_start (name : String) (isModule : Bool) (deps : List Dependency) :
    (start name isModule deps).store.Settled := by
  constructor
  · intro id kind hkind
    obtain ⟨block, hblock, rfl⟩ := Option.map_eq_some_iff.mp hkind
    obtain ⟨_, rfl⟩ := get?_start hblock
    trivial
  · rintro e ⟨id, block, hblock, he⟩
    obtain ⟨_, rfl⟩ := get?_start hblock
    rcases mem_fileBlock he with ⟨d, rfl⟩ | rfl <;> trivial

theorem settled_stays (hnamed : s.Named) (h : s.store.Settled) {c : Construct}
    (hmove : s.Stays c t) : t.store.Settled := by
  cases hmove with
  | note log => exact h
  | add log hadds happend => exact h.append happend hadds.child? (hadds.settled hnamed)
  | declare log _ hsource hvalue happend =>
    exact h.append happend rfl (Value.settled_of_make hvalue (hnamed.source_plain hsource))
  | hoist log _ happend => exact h.append happend rfl trivial
  | package log _ happend => exact h.append happend rfl trivial

theorem settled_closes (hlinked : s.Linked) (hnamed : s.Named) (h : s.store.Settled)
    (hmove : s.Closes t) : t.store.Settled := by
  obtain ⟨parent, outer, block, inner, log, _, hgt, hblock, _, hinner, _, _, rfl⟩ :=
    hlinked.attach_of_closes hmove
  exact h.attach hinner hblock (Nat.ne_of_gt hgt) (mergedElement_settled hnamed)

theorem settled_of_runs {name : String} {isModule : Bool} {deps : List Dependency}
    {lines : List Construct} (hruns : (start name isModule deps).Runs lines s) :
    s.Linked ∧ s.store.Settled := by
  obtain ⟨hlinked, _, hsettled⟩ := hruns.invariant_of_start (fun _ s => s.store.Settled)
    (settled_start name isModule deps) (fun _ _ _ _ _ hnamed hmove h => settled_stays hnamed h hmove)
    (fun _ _ _ _ _ h => h)
    (fun _ _ _ o _ _ _ _ hopening h =>
      h.extend o.fresh hopening.settled.1 hopening.settled.2)
    (fun _ _ _ _ hlinked hnamed _ hmove h => settled_closes hlinked hnamed h hmove)
  exact ⟨hlinked, hsettled⟩

end Scopes

end LineScript
