import LineScript.Proofs.Forest
import LineScript.Proofs.Results

/-!
# Returns and what is known of them

Whatever changes are made to a store, a block is closed exactly if it ends in a return, and a
routine knows what it hands back exactly if it is closed. Nothing comes after a return, so that this
never changes again. A value that was made from the result of a routine therefore rests on what the
routine still hands back.
-/
namespace LineScript

theorem Element.return?_of_isHeader {e : Element} (h : e.isHeader = true) : e.return? = none := by
  rcases Element.eq_of_isHeader h with ⟨_, rfl⟩ | ⟨_, rfl⟩ <;> rfl

namespace Block

theorem Fresh.returnsLast {block : Block} (h : block.Fresh) : block.ReturnsLast :=
  .unclosed h.unclosed (fun e he => Element.return?_of_isHeader (h.elements e he)) h.returned

theorem catching_returnsLast (condition : Condition) (evaluation : BlockId) :
    (catching condition evaluation).ReturnsLast :=
  .unclosed rfl (by simp [catching, Element.return?]) rfl

namespace ReturnsLast

variable {block : Block}

theorem closed_iff (h : block.ReturnsLast) :
    block.closed = true ↔
      ∃ given, block.elements.getLast? = some (.statement (.giveBack given)) := by
  cases h with
  | unclosed hopen hnone _ =>
    refine iff_of_false (by simp [hopen]) ?_
    rintro ⟨given, hgiven⟩
    cases hnone _ (List.mem_of_getLast? hgiven)
  | @closed front given hclosed helements _ _ _ =>
    refine iff_of_true hclosed ⟨given, ?_⟩
    rw [helements, List.getLast?_concat]

theorem dropLast (h : block.ReturnsLast) : ∀ e ∈ block.elements.dropLast, e.return? = none := by
  intro e he
  cases h with
  | unclosed _ hnone _ => exact hnone e ((List.dropLast_sublist _).subset he)
  | closed _ helements hfront _ _ =>
    rw [helements, List.dropLast_concat] at he
    exact hfront e he

/-- What a routine is known to hand back is what its closing return does. -/
theorem routine (h : block.ReturnsLast) {info : Routine} (hkind : block.kind = .routine info) :
    (info.returned.isSome = true ↔ block.closed = true) ∧
      (∀ given, block.elements.getLast? = some (.statement (.giveBack given)) →
        info.returned = some given.returned) ∧
      ∀ declared returned, info.declared = some declared → info.returned = some returned →
        Routine.conforms declared returned = true := by
  have hreturned : block.kind.returned? = info.returned := by rw [hkind]; rfl
  have hdeclared : block.kind.declared? = info.declared := by rw [hkind]; rfl
  rw [← hreturned, ← hdeclared]
  cases h with
  | unclosed hopen hnone hunknown =>
    rw [hunknown, hopen]
    refine ⟨by simp, fun given hgiven => ?_, by simp⟩
    cases hnone _ (List.mem_of_getLast? hgiven)
  | @closed front given hclosed helements _ hgiven hconforms =>
    have hknown := hgiven (by rw [hkind]; rfl)
    rw [hknown, hclosed, helements, List.getLast?_concat]
    refine ⟨by simp, ?_, ?_⟩
    · rintro _ ⟨rfl⟩
      rfl
    · rintro declared _ hdeclares ⟨rfl⟩
      exact hconforms declared hdeclares

end ReturnsLast

end Block

namespace Store

variable {s t : Store}

/-- A change keeps the returns in their places and what is known of them. -/
theorem ReturnsLast.step (h : s.ReturnsLast) {c : Change} (hstep : s.Step c t) :
    t.ReturnsLast ∧ ∀ id returned, s.returnedOf id = some returned →
      t.returnedOf id = some returned := by
  cases hstep with
  | idle _ fresh => exact ⟨h, fun _ _ hid => hid⟩
  | made _ hfresh fresh =>
    refine ⟨h.extend (fun block hblock => ?_) fresh, fun _ _ hid => returnedOf_extend hid _ _⟩
    rw [List.mem_singleton.mp hblock]
    exact hfresh.returnsLast
  | attempt _ condition =>
    refine ⟨h.extend (fun block hblock => ?_) _, fun _ _ hid => returnedOf_extend hid _ _⟩
    rcases List.mem_pair.mp hblock with rfl | rfl
    · exact Block.catching_returnsLast condition _
    · exact .unclosed rfl (by simp [Block.ofKind]) rfl
  | added happend => exact ⟨h.append happend, fun _ _ hid => h.returnedOf_append happend hid⟩

theorem ReturnsLast.afterAll (h : s.ReturnsLast) (changes : List Change) :
    (s.afterAll changes).ReturnsLast ∧ ∀ id returned, s.returnedOf id = some returned →
      (s.afterAll changes).returnedOf id = some returned :=
  afterAll_invariant changes (P := fun t => t.ReturnsLast ∧ ∀ id returned,
      s.returnedOf id = some returned → t.returnedOf id = some returned)
    ⟨h, fun _ _ hid => hid⟩ fun _ _ _ _ hstep ⟨hlast, hkept⟩ =>
      ⟨(hlast.step hstep).1, fun id returned hid =>
        (hlast.step hstep).2 id returned (hkept id returned hid)⟩

theorem returnsLast_ofChanges (changes : List Change) : (ofChanges changes).ReturnsLast := by
  have hempty : Store.empty.ReturnsLast := by
    intro id block hblock
    cases hblock
  exact (hempty.afterAll changes).1

theorem routineCall_routine {id : BlockId} {arguments : List Argument} {call : RoutineCall}
    (h : s.routineCall id arguments = .ok call) : call.routine = id := by
  obtain ⟨block, _, h⟩ := (except_bind_ok _ _ _).mp h
  cases hkind : block.kind with
  | routine info =>
    rw [hkind] at h
    rw [← (except_pure_ok _ _).mp h]
  | plain | file _ | condition _ | arrayLoop _ | mapLoop _ | evaluation _ =>
    rw [hkind] at h
    cases h

end Store

/-- Whatever changes have been made to a store, a block is closed exactly if its last element is a
return, and no other element is one. A routine knows what it hands back exactly if it is closed;
this is what its last element hands back and conforms to what the routine is declared to return.
A use of the routine that a value could be made from holds what the routine hands back after all
further changes as well. -/
theorem returns_stay_in_step (changes more : List Change) :
    (∀ id block, (Store.ofChanges changes).get? id = some block →
      (block.closed = true ↔
        ∃ given, block.elements.getLast? = some (.statement (.giveBack given))) ∧
      (∀ e ∈ block.elements.dropLast, e.return? = none) ∧
      ∀ info, block.kind = .routine info →
        (info.returned.isSome = true ↔ block.closed = true) ∧
        (∀ given, block.elements.getLast? = some (.statement (.giveBack given)) →
          info.returned = some given.returned) ∧
        ∀ declared returned, info.declared = some declared → info.returned = some returned →
          Routine.conforms declared returned = true) ∧
    ∀ id arguments call kind name element value,
      (Store.ofChanges changes).routineCall id arguments = .ok call →
      Value.make kind name element (.routine call) = .ok value →
      ∃ returned, call.returned = some returned ∧
        (Store.ofChanges (changes ++ more)).returnedOf id = some returned := by
  have hlast := Store.returnsLast_ofChanges changes
  constructor
  · intro id block hblock
    have hblock := hlast id block hblock
    exact ⟨hblock.closed_iff, hblock.dropLast, fun info hkind => hblock.routine hkind⟩
  · intro id arguments call kind name element value hcall hmake
    obtain ⟨_, _, _, _, hcheck⟩ := Value.make_ok hmake
    obtain ⟨returned, hreturned⟩ := Value.returned_of_checkRoutine hcheck
    have hknown := Store.routineCall_returned hcall
    rw [Store.routineCall_routine hcall, hreturned] at hknown
    refine ⟨returned, hreturned, ?_⟩
    rw [Store.ofChanges_append]
    exact (hlast.afterAll more).2 id returned hknown

/-- A routine that may not hand back a written-out expression, and takes nothing after its
return. -/
def closingChanges : List Change :=
  [.newRoutine (some "f") [⟨"x", none⟩] .shift (some .integer),
    .append 0 (.statement (.giveBack (.ofValues [.raw "1"]))), .append 0 (.text "1;"),
    .append 0 (.statement (.giveBack (.ofValues [.value (.placeholder "x" .integer)]))),
    .append 0 (.text "2;"), .append 0 (.statement (.giveBack (.ofValues [])))]

theorem returns_stay_in_step_closing :
    ∃ block info call value,
      (Store.ofChanges closingChanges).get? 0 = some block ∧ block.kind = .routine info ∧
      block.elements.length = 3 ∧ block.closed = true ∧ info.returned.isSome = true ∧
      (Store.ofChanges closingChanges).routineCall 0 [.raw "1"] = .ok call ∧
      Value.make .scalar none none (.routine call) = .ok value ∧
      (Store.ofChanges (closingChanges ++ [.append 0 (.block 0), .newEvaluation])).returnedOf 0 =
        some (.single (some .integer)) := by
  have hblock : (Store.ofChanges closingChanges).get? 0 = some
      ⟨.routine ⟨some "f", ["x"], .shift, some .integer, some (.single (some .integer))⟩,
        [.statement (.binding ⟨[⟨"x", none⟩], .shift⟩), .text "1;",
          .statement (.giveBack (.ofValues [.value (.placeholder "x" .integer)]))],
        true, none⟩ := rfl
  have hcall : (Store.ofChanges closingChanges).routineCall 0 [.raw "1"] =
      .ok ⟨0, some "f", some (.single (some .integer)), [.raw "1"]⟩ := rfl
  obtain ⟨hblocks, hcalls⟩ := returns_stay_in_step closingChanges
    [.append 0 (.block 0), .newEvaluation]
  have hclosed := (hblocks 0 _ hblock).1.mpr ⟨_, rfl⟩
  have hknown := ((hblocks 0 _ hblock).2.2 _ rfl).1.mpr hclosed
  obtain ⟨returned, ⟨rfl⟩, hkept⟩ := hcalls 0 _ _ .scalar none none _ hcall rfl
  exact ⟨_, _, _, _, hblock, rfl, rfl, hclosed, hknown, hcall, rfl, hkept⟩

end LineScript
