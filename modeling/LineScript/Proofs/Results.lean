import LineScript.Proofs.Returns
import LineScript.Proofs.Stored

/-!
# Results of routines

A variable that takes the result of a routine takes what the routine handed back when the line was
read; the routine is closed by then and keeps handing back the same. A container that comes out of
a routine is held against the kind of the variable but not against the kind of its elements, which
a container that is referred to by name is.
-/
namespace LineScript

/-- The value that an element gives a variable, with its declaration or later. -/
def Element.given? : Element → Option Value
  | .value v => some v
  | .statement (.assign a) => some a.value
  | _ => none

/-- The call whose result a source is. -/
def Source.routine? : Source → Option RoutineCall
  | .routine call => some call
  | _ => none

/-- The value that a return of a single value hands back by its name. -/
def Return.single? (r : Return) : Option Value :=
  match r.multiple, r.values with
  | false, [.value content] => some content
  | _, _ => none

theorem Return.returned_of_single? {r : Return} {content : Value} (h : r.single? = some content) :
    r.returned = .single (some content.kind) := by
  unfold Return.single? at h
  split at h
  · rename_i hmultiple hvalues
    obtain rfl := Option.some.inj h
    simp [Return.returned, hmultiple, hvalues, ReturnedValue.kind]
  · cases h

section Flow

variable {kind : Kind} {name : Option String} {element : Option Kind} {source : Source}

theorem Kind.accepts_container {target source : Kind} (h : source.isContainer = true) :
    target.accepts source = if target = source then .exact else .refused := by
  have hwrapped : source.isWrapped = false := by
    cases source <;> first | rfl | cases h
  unfold Kind.accepts
  split_ifs with heq hscalar
  · rfl
  · rw [hwrapped] at hscalar
    cases hscalar.2
  · rfl

theorem Kind.eq_of_container_accepts {target source : Kind} (htarget : target.isContainer = true)
    (h : target.accepts source ≠ .refused) : target = source := by
  unfold Kind.accepts at h
  split_ifs at h with heq hscalar
  · exact heq
  · rw [hscalar.1] at htarget
    cases htarget
  · exact absurd rfl h

theorem Kind.elementFor_container {element found : Option Kind} (hkind : kind.isContainer = true)
    (h : kind.elementFor element = .ok found) : ∃ e, found = some e := by
  unfold Kind.elementFor at h
  rw [hkind] at h
  cases element with
  | none => exact ⟨_, (Except.ok.inj h).symm⟩
  | some e =>
    simp only at h
    split_ifs at h
    exact ⟨_, (Except.ok.inj h).symm⟩

/-- A value can be made exactly if its element kind fits and its source may flow into it. -/
theorem Value.exists_make_iff :
    (∃ v, Value.make kind name element source = .ok v) ↔
      ∃ found unwraps, kind.elementFor element = .ok found ∧
        Value.checkSource ⟨kind, name, found, source, false⟩ = .ok unwraps := by
  unfold Value.make
  simp only [except_bind_ok, except_pure_ok]
  constructor
  · rintro ⟨_, found, hfound, unwraps, hunwraps, _⟩
    exact ⟨found, unwraps, hfound, hunwraps⟩
  · rintro ⟨found, unwraps, hfound, hunwraps⟩
    exact ⟨_, found, hfound, unwraps, hunwraps, rfl⟩

theorem Value.acceptsVariable_container {v : Value} {x : Variable} {e : Kind}
    (hx : x.kind.isContainer = true) (hkind : v.kind = x.kind) (he : v.element = some e) :
    v.acceptsVariable x = .exact ↔ v.element = some .scalar ∨ v.element = x.element := by
  unfold Value.acceptsVariable
  rw [Kind.accepts_container hx, if_pos hkind, hkind, hx, he]
  cases x.element with
  | none => simp
  | some f => simp [or_iff_not_imp_left]

theorem Value.checkSource_variable_iff {v : Value} {x : Variable}
    (hsource : v.source = .variable x) :
    (∃ unwraps, v.checkSource = .ok unwraps) ↔ v.acceptsVariable x ≠ .refused := by
  unfold Value.checkSource
  rw [hsource]
  cases hflow : v.acceptsVariable x <;> simp [hflow]

theorem Value.checkSource_routine_iff {v : Value} {call : RoutineCall} {returned : Kind}
    (hsource : v.source = .routine call) (hcall : call.returned = some (.single (some returned))) :
    (∃ unwraps, v.checkSource = .ok unwraps) ↔ v.kind.accepts returned ≠ .refused := by
  unfold Value.checkSource
  rw [hsource]
  simp only [Value.checkRoutine, hcall]
  cases v.kind.accepts returned <;> simp

theorem Value.acceptsVariable_of_ne {v : Value} {x : Variable} (hx : x.kind.isContainer = true)
    (hkind : v.kind ≠ x.kind) : v.acceptsVariable x = .refused := by
  unfold Value.acceptsVariable
  rw [Kind.accepts_container hx, if_neg hkind]

theorem Value.acceptsVariable_eq_exact {v : Value} {x : Variable} (hx : x.kind.isContainer = true)
    (h : v.acceptsVariable x ≠ .refused) : v.acceptsVariable x = .exact := by
  unfold Value.acceptsVariable at h ⊢
  rw [Kind.accepts_container hx] at h ⊢
  by_cases hkind : v.kind = x.kind
  · rw [if_pos hkind] at h ⊢
    simp only at h ⊢
    split_ifs at h ⊢ <;> first | rfl | exact absurd rfl h
  · rw [if_neg hkind] at h
    exact absurd rfl h

/-- A container takes another by reference if it takes it as the result of a routine and, besides,
holds plain elements or elements of the same kind. -/
theorem Value.exists_make_variable_iff {x : Variable} {call : RoutineCall}
    (hx : x.kind.isContainer = true) (hcall : call.returned = some (.single (some x.kind))) :
    (∃ v, Value.make kind name element (.variable x) = .ok v) ↔
      (∃ v, Value.make kind name element (.routine call) = .ok v) ∧
        (kind.elementFor element = .ok (some .scalar) ∨
          kind.elementFor element = .ok x.element) := by
  rw [Value.exists_make_iff, Value.exists_make_iff]
  simp only [exists_and_left]
  by_cases hkind : kind = x.kind
  · have hcontainer : kind.isContainer = true := hkind ▸ hx
    constructor
    · rintro ⟨found, hfound, hchecks⟩
      obtain ⟨e, rfl⟩ := Kind.elementFor_container hcontainer hfound
      rw [Value.checkSource_variable_iff rfl] at hchecks
      have hexact := Value.acceptsVariable_eq_exact hx hchecks
      rw [Value.acceptsVariable_container hx hkind rfl] at hexact
      refine ⟨⟨some e, hfound, ?_⟩, ?_⟩
      · rw [Value.checkSource_routine_iff rfl hcall, Kind.accepts_container hx, if_pos hkind]
        exact Flow.noConfusion
      · rcases hexact with hexact | hexact
        · exact Or.inl (hfound.trans (congrArg Except.ok hexact))
        · exact Or.inr (hfound.trans (congrArg Except.ok hexact))
    · rintro ⟨⟨found, hfound, _⟩, helement⟩
      obtain ⟨e, rfl⟩ := Kind.elementFor_container hcontainer hfound
      refine ⟨some e, hfound, ?_⟩
      rw [Value.checkSource_variable_iff rfl,
        (Value.acceptsVariable_container hx hkind rfl).mpr ?_]
      · exact Flow.noConfusion
      · simp only [hfound, Except.ok.injEq] at helement
        exact helement
  · constructor
    · rintro ⟨found, _, hchecks⟩
      rw [Value.checkSource_variable_iff rfl] at hchecks
      exact absurd (Value.acceptsVariable_of_ne hx hkind) hchecks
    · rintro ⟨⟨found, _, hchecks⟩, _⟩
      rw [Value.checkSource_routine_iff rfl hcall, Kind.accepts_container hx,
        if_neg hkind] at hchecks
      exact absurd rfl hchecks

end Flow

/-- The value was made from its source. If this is the result of a routine, the routine hands back
in the store what it handed back then. -/
structure Value.Faithful (s : Store) (v : Value) : Prop where
  made : ∃ kind name element, Value.make kind name element v.source = .ok v
  result : ∀ call, v.source = .routine call →
    ∃ returned, call.returned = some returned ∧ s.returnedOf call.routine = some returned

theorem Value.Faithful.mono {s t : Store} {v : Value} (h : v.Faithful s)
    (hreturned : ∀ id returned, s.returnedOf id = some returned →
      t.returnedOf id = some returned) : v.Faithful t := by
  refine ⟨h.made, fun call hcall => ?_⟩
  obtain ⟨returned, hgiven, hkept⟩ := h.result call hcall
  exact ⟨returned, hgiven, hreturned _ _ hkept⟩

theorem Value.returned_of_checkRoutine {v : Value} {call : RoutineCall} {unwraps : Bool}
    (h : v.checkRoutine call = .ok unwraps) : ∃ returned, call.returned = some returned := by
  unfold Value.checkRoutine at h
  cases hreturned : call.returned with
  | none =>
    rw [hreturned] at h
    cases h
  | some returned => exact ⟨returned, rfl⟩

namespace Store

variable {s t : Store}

/-- Every variable is given faithful values only. -/
def Faithful (s : Store) : Prop :=
  ∀ e v, s.Stores e → e.given? = some v → v.Faithful s

theorem stores_of_append {parent : BlockId} {element e : Element}
    (happend : Succeeds (Edit.append parent element) s () t) (h : t.Stores e) :
    s.Stores e ∨ e = element := by
  obtain ⟨block, hblock, _, _, hcases⟩ := Edit.append_added happend
  obtain ⟨id, found, hfound, he⟩ := h
  rcases hcases id found hfound with ⟨old, hold, heq⟩ | ⟨_, hadded⟩
  · rw [heq] at he
    exact Or.inl ⟨id, old, hold, he⟩
  · cases hadded with
    | other _ _ _ helements =>
      exact (helements e he).imp_left fun he => ⟨parent, block, hblock, he⟩
    | giveBack _ =>
      rw [List.mem_append, List.mem_singleton] at he
      exact he.imp_left fun he => ⟨parent, block, hblock, he⟩

theorem Faithful.append (h : s.Faithful) (hlast : s.ReturnsLast) {parent : BlockId}
    {element : Element} (happend : Succeeds (Edit.append parent element) s () t)
    (helement : ∀ v, element.given? = some v → v.Faithful s) : t.Faithful := by
  have hkept (id : BlockId) (returned : Returned) (hid : s.returnedOf id = some returned) :=
    hlast.returnedOf_append happend hid
  intro e v he hv
  rcases stores_of_append happend he with he | rfl
  · exact (h e v he hv).mono hkept
  · exact (helement v hv).mono hkept

theorem Faithful.extend (h : s.Faithful) {made : List Block}
    (hmade : ∀ block ∈ made, ∀ e ∈ block.elements, e.given? = none) (fresh : Nat) :
    (s.extend made fresh).Faithful := by
  intro e v he hv
  rcases stores_extend he with he | ⟨block, hblock, he⟩
  · exact (h e v he hv).mono fun id returned hid => returnedOf_extend hid made fresh
  · rw [hmade block hblock e he] at hv
    cases hv

theorem routineCall_returned {id : BlockId} {arguments : List Argument} {call : RoutineCall}
    (h : s.routineCall id arguments = .ok call) : s.returnedOf call.routine = call.returned := by
  obtain ⟨block, hblock, h⟩ := (except_bind_ok _ _ _).mp h
  have hfound := (s.block_ok id block).mp hblock
  cases hkind : block.kind with
  | routine info =>
    rw [hkind] at h
    obtain rfl := (except_pure_ok _ _).mp h
    rw [returnedOf, hfound, Option.bind_some, hkind]
    rfl
  | plain | file _ | condition _ | arrayLoop _ | mapLoop _ | evaluation _ =>
    rw [hkind] at h
    cases h

end Store

namespace Scopes

variable {s t : Scopes}

theorem source_returned {expression : Expression} {call : RoutineCall}
    (h : s.source expression = .ok (.routine call)) :
    s.store.returnedOf call.routine = call.returned := by
  cases expression with
  | literal _ | arguments => cases h
  | «variable» _ | method _ _ =>
    obtain ⟨_, _, h⟩ := (except_bind_ok _ _ _).mp h
    cases (except_pure_ok _ _).mp h
  | routine name arguments =>
    obtain ⟨id, _, h⟩ := (except_bind_ok _ _ _).mp h
    obtain ⟨arguments', _, h⟩ := (except_bind_ok _ _ _).mp h
    obtain ⟨call', hcall, h⟩ := (except_bind_ok _ _ _).mp h
    obtain rfl := Source.routine.inj ((except_pure_ok _ _).mp h)
    exact Store.routineCall_returned hcall

theorem faithful_of_make {expression : Expression} {source : Source} {kind : Kind}
    {name : Option String} {element : Option Kind} {v : Value}
    (hsource : s.source expression = .ok source)
    (hmake : Value.make kind name element source = .ok v) : v.Faithful s.store := by
  obtain ⟨_, _, _, hv, hcheck⟩ := Value.make_ok hmake
  refine ⟨⟨kind, name, element, by rw [hv, hmake]⟩, fun call hcall => ?_⟩
  obtain rfl := hv.symm.trans hcall
  obtain ⟨returned, hreturned⟩ := Value.returned_of_checkRoutine hcheck
  exact ⟨returned, hreturned, (source_returned hsource).trans hreturned⟩

theorem Adds.faithful {c : Construct} {element : Element} (h : s.Adds c element) (v : Value)
    (hv : element.given? = some v) : v.Faithful s.store := by
  cases h with
  | blank | call _ _ _ | giveBack _ | print _ | exit _ => cases hv
  | assign _ hsource hvalue hassignment =>
    obtain ⟨_, heq⟩ := Assignment.make_ok hassignment
    obtain rfl := heq.symm.trans (Option.some.inj hv)
    exact faithful_of_make hsource hvalue

theorem faithful_stays (h : s.store.Faithful) (hlast : s.store.ReturnsLast) {c : Construct}
    (hmove : s.Stays c t) : t.store.Faithful := by
  cases hmove with
  | note log => exact h
  | add log hadds happend => exact h.append hlast happend hadds.faithful
  | declare log _ hsource hvalue happend =>
    refine h.append hlast happend fun v hv => ?_
    obtain rfl := Option.some.inj hv
    exact faithful_of_make hsource hvalue
  | hoist log _ happend => exact h.append hlast happend (by simp [Element.given?])
  | package log _ happend => exact h.append hlast happend (by simp [Element.given?])

theorem Opening.given?_eq_none {c : Construct} {o : Opened} (h : s.Opening c o) :
    ∀ block ∈ o.made, ∀ e ∈ block.elements, e.given? = none := by
  cases h with
  | plain | condition _ _ _ | mapLoop _ _ _ | arrayLoop _ _ _ _ _ _ _ => simp [Block.ofKind]
  | routine _ _ | signal _ => simp [routineBlock, Element.given?]
  | attempt _ => simp [Block.ofKind, Element.given?]

theorem given?_mergedElement (scope : Scope) : (Session.mergedElement scope).given? = none := by
  unfold Session.mergedElement
  cases scope.merge <;> rfl

theorem faithful_of_runs {name : String} {isModule : Bool} {deps : List Dependency}
    {lines : List Construct} (hruns : (start name isModule deps).Runs lines s) :
    s.store.ReturnsLast ∧ s.store.Faithful := by
  apply hruns.invariant (fun _ s => s.store.ReturnsLast ∧ s.store.Faithful)
  · refine ⟨returnsLast_start name isModule deps, ?_⟩
    rintro e v ⟨id, block, hblock, he⟩ hv
    obtain ⟨_, rfl⟩ := get?_start hblock
    rcases mem_fileBlock he with ⟨d, rfl⟩ | rfl <;> cases hv
  · rintro _ c s t hmove ⟨hlast, h⟩
    exact ⟨returnsLast_stays hlast hmove, faithful_stays h hlast hmove⟩
  · intro _ _ _ _ _ h
    exact h
  · rintro _ c s o log _ hopening ⟨hlast, h⟩
    exact ⟨hlast.extend hopening.returnsLast o.fresh,
      h.extend hopening.given?_eq_none o.fresh⟩
  · rintro _ c s t _ hmove ⟨hlast, h⟩
    refine ⟨returnsLast_closes hlast hmove, ?_⟩
    cases hmove with
    | close log _ happend =>
      exact h.append hlast happend (by simp [given?_mergedElement])

end Scopes

/-- In a compiled script, a container that is given the result of a routine has the kind that the
closing return of the routine hands back. If this return names a container, the one that is given
accepts it by reference as well exactly if it holds plain elements or elements of the same kind;
only this is not asked of a result. -/
theorem container_result_keeps_kind {settings : Settings} {script : Script} {program : Program}
    {log : List LogEntry} (h : compile settings script = (.ok program, log)) {e : Element}
    {v : Value} {call : RoutineCall} (he : program.store.Stores e) (hv : e.given? = some v)
    (hcall : v.source = .routine call) (hcontainer : v.kind.isContainer = true) :
    ∃ block given, program.store.get? call.routine = some block ∧
      block.elements.getLast? = some (.statement (.giveBack given)) ∧
      block.kind.returned? = some given.returned ∧ call.returned = some given.returned ∧
      ∀ content x, given.single? = some content → content.toVariable = .ok x →
        v.kind = x.kind ∧
        (v.acceptsVariable x = .exact ↔ v.element = some .scalar ∨ v.element = x.element) ∧
        ∀ kind name element,
          (∃ w, Value.make kind name element (.variable x) = .ok w) ↔
            (∃ w, Value.make kind name element (.routine call) = .ok w) ∧
              (kind.elementFor element = .ok (some .scalar) ∨
                kind.elementFor element = .ok x.element) := by
  obtain ⟨_, _, final, _, hruns, _, rfl, _⟩ := compile_ok h
  obtain ⟨hlast, hfaithful⟩ := Scopes.faithful_of_runs hruns
  obtain ⟨⟨kind, name, element, hmake⟩, hresult⟩ := hfaithful e v he hv
  obtain ⟨returned, hreturned, hkept⟩ := hresult call hcall
  obtain ⟨block, hblock, hrecorded⟩ := Option.bind_eq_some_iff.mp hkept
  obtain ⟨_, given, hgiven, rfl⟩ := (hlast _ block hblock).of_returned? hrecorded
  refine ⟨block, given, hblock, hgiven, hrecorded, hreturned, ?_⟩
  intro content x hsingle hx
  obtain ⟨_, hxKind, _⟩ := Value.toVariable_ok hx
  rw [Return.returned_of_single? hsingle, ← hxKind] at hreturned
  obtain ⟨rfl, _, helement, _, hcheck⟩ := Value.make_ok hmake
  have haccepts := (Value.checkSource_routine_iff
    (v := ⟨v.kind, name, v.element, v.source, false⟩) hcall hreturned).mp ⟨_, hcheck⟩
  have hkind : v.kind = x.kind := Kind.eq_of_container_accepts hcontainer haccepts
  have hxContainer : x.kind.isContainer = true := hkind ▸ hcontainer
  obtain ⟨found, hfound⟩ := Kind.elementFor_container hcontainer helement
  exact ⟨hkind, Value.acceptsVariable_container hxContainer hkind hfound,
    fun _ _ _ => Value.exists_make_variable_iff hxContainer hreturned⟩

/-- The value that the last element of the file gives a variable, the call that it is the result
of, and the value that the routine hands back by its name. -/
def lastResult (store : Store) : Option (Value × RoutineCall × Value) :=
  (store.get? 0).bind fun file =>
  (file.elements.getLast?.bind Element.given?).bind fun value =>
  value.source.routine?.bind fun call =>
  (store.get? call.routine).bind fun routine =>
  (routine.elements.getLast?.bind Element.return?).bind fun given =>
  given.single?.map fun content => (value, call, content)

theorem lastResult_eq_some {store : Store} {value content : Value} {call : RoutineCall}
    (h : lastResult store = some (value, call, content)) :
    ∃ e routine given, store.Stores e ∧ e.given? = some value ∧ value.source = .routine call ∧
      store.get? call.routine = some routine ∧
      routine.elements.getLast? = some (.statement (.giveBack given)) ∧
      given.single? = some content := by
  simp only [lastResult, Option.bind_eq_some_iff, Option.map_eq_some_iff, Prod.mk.injEq] at h
  obtain ⟨file, hfile, value, ⟨e, hlast, hvalue⟩, call, hcall, routine, hroutine, given,
    ⟨closing, hclosing, hgiven⟩, content, hcontent, rfl, rfl, rfl⟩ := h
  refine ⟨e, routine, given, ⟨0, file, hfile, List.mem_of_getLast? hlast⟩, hvalue, ?_, hroutine, ?_,
    hcontent⟩
  · unfold Source.routine? at hcall
    split at hcall
    · rename_i hsource
      rw [hsource, Option.some.inj hcall]
    · cases hcall
  · unfold Element.return? at hgiven
    split at hgiven
    · rw [hclosing, Option.some.inj hgiven]
    · cases hgiven

theorem container_result_keeps_kind_reassigned :
    ∃ program log e v call block given content x,
      compile {} (.ofSource "a" ("sub f() \x7b\nMap<String> s = \x7b\"k\": \"a\"\x7d\nreturn s\n" ++
        "\x7d\nMap<String> m = f()\nm = f()")) = (.ok program, log) ∧
      program.store.Stores e ∧ e.given? = some v ∧ v.source = .routine call ∧
      v.kind.isContainer = true ∧ program.store.get? call.routine = some block ∧
      block.elements.getLast? = some (.statement (.giveBack given)) ∧
      given.single? = some content ∧ content.toVariable = .ok x ∧ v.kind = x.kind ∧
      v.acceptsVariable x = .exact := by
  obtain ⟨program, log, h, hcheck⟩ := exists_of_compile_any {}
    (.ofSource "a" ("sub f() \x7b\nMap<String> s = \x7b\"k\": \"a\"\x7d\nreturn s\n" ++
      "\x7d\nMap<String> m = f()\nm = f()"))
    (fun program => (lastResult program.store).any fun found =>
      found.1.kind.isContainer && found.1.element == some .string &&
        found.2.2.toVariable.toOption == some ⟨"s", .map, some .string⟩) (by decide +kernel)
  simp only [Option.any_eq_true, Bool.and_eq_true, beq_iff_eq] at hcheck
  obtain ⟨⟨v, call, content⟩, hresult, ⟨hcontainer, helement⟩, hcontent⟩ := hcheck
  obtain ⟨e, block, given, he, hv, hcall, hblock, hlast, hsingle⟩ := lastResult_eq_some hresult
  obtain ⟨found, other, hfound, hother, _, _, hflow⟩ :=
    container_result_keeps_kind h he hv hcall hcontainer
  obtain rfl := Option.some.inj (hblock.symm.trans hfound)
  cases hlast.symm.trans hother
  obtain ⟨hkind, haccepts, _⟩ := hflow content _ hsingle (except_toOption_eq_some hcontent)
  exact ⟨program, log, e, v, call, block, given, content, _, h, he, hv, hcall, hcontainer, hblock,
    hlast, hsingle, except_toOption_eq_some hcontent, hkind, haccepts.mpr (Or.inr helement)⟩

/-- The elements of an array that comes out of a routine may be of another kind than those of the
array that takes it, which does not take it by its name. -/
theorem container_result_changes_elements :
    ∃ program log e v call block given content x,
      compile { defaultDependencies := [] }
          (.ofSource "a" ("sub f() \x7b\nArray<String> s = [\"a\"]\nreturn s\n\x7d\n" ++
            "Array<Int> i = f()")) = (.ok program, log) ∧
      program.store.Stores e ∧ e.given? = some v ∧ v.source = .routine call ∧
      program.store.get? call.routine = some block ∧
      block.elements.getLast? = some (.statement (.giveBack given)) ∧
      given.single? = some content ∧ content.toVariable = .ok x ∧
      v.kind = .array ∧ v.element = some .integer ∧ x.kind = .array ∧ x.element = some .string ∧
      v.acceptsVariable x = .refused := by
  obtain ⟨program, log, h, hcheck⟩ := exists_of_compile_any { defaultDependencies := [] }
    (.ofSource "a" ("sub f() \x7b\nArray<String> s = [\"a\"]\nreturn s\n\x7d\n" ++
      "Array<Int> i = f()"))
    (fun program => (lastResult program.store).any fun found =>
      found.1.kind == .array && found.1.element == some .integer &&
        found.2.2.toVariable.toOption == some ⟨"s", .array, some .string⟩) (by decide +kernel)
  simp only [Option.any_eq_true, Bool.and_eq_true, beq_iff_eq] at hcheck
  obtain ⟨⟨v, call, content⟩, hresult, ⟨hkind, helement⟩, hcontent⟩ := hcheck
  obtain ⟨e, block, given, he, hv, hcall, hblock, hlast, hsingle⟩ := lastResult_eq_some hresult
  refine ⟨program, log, e, v, call, block, given, content, ⟨"s", .array, some .string⟩, h, he, hv,
    hcall, hblock, hlast, hsingle, except_toOption_eq_some hcontent, hkind, helement, rfl, rfl, ?_⟩
  unfold Value.acceptsVariable
  rw [show v.kind = .array from hkind, show v.element = some .integer from helement]
  rfl

end LineScript
