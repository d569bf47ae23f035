import LineScript.Proofs.Linked

/-!
# The names of open scopes

The table of values of a scope gives every name a value of that name, and its table of routines
gives every name a routine of that name. A scope that handles a signal stands over a routine
without a name.
-/
namespace LineScript

theorem mem_of_lookup {α β : Type} [BEq α] [LawfulBEq α] {a : α} {b : β} {table : List (α × β)}
    (h : table.lookup a = some b) : (a, b) ∈ table := by
  obtain ⟨front, back, hsplit, _⟩ := List.lookup_eq_some_iff.mp h
  rw [hsplit]
  exact List.mem_append_right _ List.mem_cons_self

theorem Value.make_ok {kind : Kind} {name : Option String} {element : Option Kind}
    {source : Source} {v : Value} (h : Value.make kind name element source = .ok v) :
    v.kind = kind ∧ v.name = name ∧ kind.elementFor element = .ok v.element ∧ v.source = source ∧
      Value.checkSource ⟨kind, name, v.element, source, false⟩ = .ok v.unwraps := by
  obtain ⟨element', helement, h⟩ := (except_bind_ok _ _ _).mp h
  obtain ⟨unwraps, hunwraps, h⟩ := (except_bind_ok _ _ _).mp h
  obtain rfl := (except_pure_ok _ _).mp h
  exact ⟨rfl, rfl, helement, rfl, hunwraps⟩

theorem Session.parameterValue_ok {p : Parameter} {bound : BoundParameter × Value}
    (h : parameterValue p = .ok bound) :
    bound.1.name = p.name ∧ ∃ kind element,
      Value.make kind (some p.name) element (.literal .undefined) = .ok bound.2 ∧
      bound.1.wrap = if kind.isWrapped then some kind.className else none := by
  obtain ⟨kind, element, h⟩ : ∃ kind element, (do
      let value ← Value.make kind (some p.name) element (.literal .undefined)
      pure (⟨p.name, if kind.isWrapped then some kind.className else none⟩, value)) =
        Except.ok bound := by
    unfold parameterValue at h
    cases htype : p.type with
    | none =>
      simp only [htype] at h
      exact ⟨.scalar, none, h⟩
    | some type =>
      simp only [htype] at h
      obtain ⟨⟨kind, element⟩, _, h⟩ := (except_bind_ok _ _ _).mp h
      exact ⟨kind, element, h⟩
  obtain ⟨value, hvalue, h⟩ := (except_bind_ok _ _ _).mp h
  obtain rfl := (except_pure_ok _ _).mp h
  exact ⟨rfl, kind, element, hvalue, rfl⟩

def Store.IsRoutine (s : Store) (id : BlockId) (name : Option String) : Prop :=
  ∃ info, s.kindOf id = some (.routine info) ∧ info.name = name

theorem Store.IsRoutine.extend {s : Store} {id : BlockId} {name : Option String}
    (h : s.IsRoutine id name) (made : List Block) (fresh : Nat) :
    (s.extend made fresh).IsRoutine id name := by
  obtain ⟨info, hkind, hname⟩ := h
  obtain ⟨block, hblock, _⟩ := Option.map_eq_some_iff.mp hkind
  refine ⟨info, ?_, hname⟩
  rw [kindOf, get?_extend_of_lt (lt_size_of_get? hblock)]
  exact hkind

theorem Store.isRoutine_new (s : Store) (name : Option String) (parameters : List BoundParameter)
    (mode : BindingMode) (declared : Option Kind) (fresh : Nat) :
    (s.extend [Scopes.routineBlock name parameters mode declared] fresh).IsRoutine s.size name :=
  ⟨_, kindOf_of_get? (s.get?_extend_single _ _), rfl⟩

structure Scope.Named (store : Store) (scope : Scope) : Prop where
  values : ∀ p ∈ scope.values, p.2.name = some p.1
  routines : ∀ p ∈ scope.routines, store.IsRoutine p.2 (some p.1)
  handler : ∀ signal, scope.merge = .handler signal → store.IsRoutine scope.block none

theorem Scope.Named.mono {s t : Store} {scope : Scope} (h : scope.Named s)
    (hroutine : ∀ id name, s.IsRoutine id name → t.IsRoutine id name) : scope.Named t where
  values := h.values
  routines p hp := hroutine _ _ (h.routines p hp)
  handler signal hmerge := hroutine _ _ (h.handler signal hmerge)

namespace Scopes

def Named (s : Scopes) : Prop :=
  ∀ scope ∈ s.all, scope.Named s.store

theorem Opening.named {s : Scopes} {c : Construct} {o : Opened} (h : s.Opening c o)
    (log : List LogEntry) :
    (∀ p ∈ o.values, p.2.name = some p.1) ∧
      (∀ p ∈ o.routines, (s.opened o log).store.IsRoutine p.2 (some p.1)) ∧
      ∀ signal, o.merge = .handler signal →
        (s.opened o log).store.IsRoutine (s.opened o log).current.block none := by
  cases h with
  | plain => simp
  | condition _ _ _ => simp
  | attempt _ => simp
  | mapLoop _ _ _ => simp [Value.placeholder]
  | arrayLoop _ _ _ _ _ _ hitem => simp [(Value.make_ok hitem).2.1]
  | @signal name parameter signal hsignal =>
    refine ⟨?_, by simp, fun _ _ => s.store.isRoutine_new _ _ _ _ _⟩
    cases parameter <;> simp [Value.placeholder]
  | @routine name parameters returns declared bound hdeclared hbound =>
    refine ⟨?_, ?_, by simp⟩
    · intro p hp
      rw [List.mem_reverse, List.mem_map] at hp
      obtain ⟨q, hq, rfl⟩ := hp
      obtain ⟨parameter, _, hparameter⟩ := exists_of_mem_mapM hbound hq
      obtain ⟨hname, kind, element, hvalue, _⟩ := Session.parameterValue_ok hparameter
      rw [(Value.make_ok hvalue).2.1, hname]
    · intro p hp
      cases name with
      | none => simp at hp
      | some name =>
        obtain rfl := List.mem_singleton.mp hp
        exact s.store.isRoutine_new _ _ _ _ _

namespace Named

variable {s t : Scopes}

theorem start (name : String) (isModule : Bool) (deps : List Dependency) :
    (Scopes.start name isModule deps).Named := by
  intro scope hscope
  obtain rfl := List.mem_singleton.mp hscope
  constructor <;> simp [Scopes.start]

theorem stays (h : s.Named) {c : Construct} (hmove : s.Stays c t) : t.Named := by
  have hroutine : ∀ id name, s.store.IsRoutine id name → t.store.IsRoutine id name := by
    rintro id name ⟨info, hinfo, hname⟩
    exact ⟨info, by rw [hmove.sameLinks.kind, hinfo], hname⟩
  intro scope hscope
  cases hmove with
  | note log => exact h scope hscope
  | add log _ _ => exact (h scope hscope).mono hroutine
  | hoist log _ _ => exact (h scope hscope).mono hroutine
  | package log _ _ => exact (h scope hscope).mono hroutine
  | declare log _ _ hvalue _ =>
    rcases List.mem_cons.mp hscope with rfl | hscope
    · have hcurrent := (h s.current List.mem_cons_self).mono hroutine
      refine ⟨?_, hcurrent.routines, hcurrent.handler⟩
      intro p hp
      rcases List.mem_cons.mp hp with rfl | hp
      · exact (Value.make_ok hvalue).2.1
      · exact hcurrent.values p hp
    · exact (h scope (List.mem_cons_of_mem _ hscope)).mono hroutine

theorem opened (h : s.Named) {c : Construct} {o : Opened} (hopening : s.Opening c o)
    (log : List LogEntry) : (s.opened o log).Named := by
  obtain ⟨hvalues, hroutines, hhandler⟩ := hopening.named log
  have hroutine : ∀ id name, s.store.IsRoutine id name →
      (s.opened o log).store.IsRoutine id name := fun _ _ h => h.extend _ _
  intro scope hscope
  rcases List.mem_cons.mp hscope with rfl | hscope
  · exact ⟨hvalues, by simp [Scopes.opened], hhandler⟩
  rcases List.mem_cons.mp hscope with rfl | hscope
  · have hcurrent := (h s.current List.mem_cons_self).mono hroutine
    refine ⟨hcurrent.values, ?_, hcurrent.handler⟩
    intro p hp
    rcases List.mem_append.mp hp with hp | hp
    · exact hroutines p hp
    · exact hcurrent.routines p hp
  · exact (h scope (List.mem_cons_of_mem _ hscope)).mono hroutine

theorem closes (h : s.Named) (hlinked : s.Linked) (hmove : s.Closes t) : t.Named := by
  obtain ⟨parent, outer, block, inner, log, houter, hgt, hblock, _, hinner, _, _, rfl⟩ :=
    hlinked.attach_of_closes hmove
  intro scope hscope
  have hmem : scope ∈ s.all := by
    rw [all, houter]
    exact List.mem_cons_of_mem _ hscope
  apply (h scope hmem).mono
  rintro id name ⟨info, hinfo, hname⟩
  exact ⟨info, by rw [Store.kindOf_attach hinner hblock (Nat.ne_of_gt hgt), hinfo], hname⟩

theorem name_of_resolve (h : s.Named) {name : String} {value : Value}
    (hvalue : s.resolve name = some value) : value.name = some name := by
  obtain ⟨scope, hscope, hlookup⟩ := List.exists_of_findSome?_eq_some hvalue
  exact (h scope hscope).values (name, value) (mem_of_lookup hlookup)

theorem isRoutine_of_require (h : s.Named) {name : String} {id : BlockId}
    (hid : s.requireRoutine name = .ok id) : s.store.IsRoutine id (some name) := by
  unfold requireRoutine at hid
  cases hresolve : s.resolveRoutine name with
  | none =>
    rw [hresolve] at hid
    cases hid
  | some routine =>
    rw [hresolve] at hid
    obtain rfl := Except.ok.inj hid
    obtain ⟨scope, hscope, hlookup⟩ := List.exists_of_findSome?_eq_some hresolve
    exact (h scope hscope).routines (name, routine) (mem_of_lookup hlookup)

end Named

/-- An invariant of runs from a new file, where the links and the names are known to be in order
before every move, and each line is known to be allowed. -/
theorem Runs.invariant_of_start_along (A : List Construct → Construct → Prop)
    (P : List Construct → Scopes → Prop) {name : String} {isModule : Bool} {deps : List Dependency}
    {lines : List Construct} {s : Scopes}
    (hruns : (Scopes.start name isModule deps).Runs lines s)
    (hall : ∀ front c back, lines = front ++ c :: back → A front c)
    (hstart : P [] (Scopes.start name isModule deps))
    (hstays : ∀ lines c s t, A lines c → s.Linked → s.Named → Stays s c t → P lines s → P lines t)
    (hother : ∀ lines c s, c.opens = false → c.closes = false → P lines s → P (lines ++ [c]) s)
    (hopens : ∀ lines c s o log, A lines c → s.Linked → s.Named → c.opens = true →
      Opening s c o → P lines s → P (lines ++ [c]) (s.opened o log))
    (hcloses : ∀ lines c s t, s.Linked → s.Named → c.closes = true → Closes s t → P lines s →
      P (lines ++ [c]) t) : s.Linked ∧ s.Named ∧ P lines s := by
  apply hruns.invariant_along A (fun lines s => s.Linked ∧ s.Named ∧ P lines s) hall
  · exact ⟨.start name isModule deps, .start name isModule deps, hstart⟩
  · rintro lines c s t hallowed hmove ⟨hlinked, hnamed, h⟩
    exact ⟨hlinked.sameLinks hmove.sameLinks, hnamed.stays hmove,
      hstays lines c s t hallowed hlinked hnamed hmove h⟩
  · rintro lines c s hopen hclose ⟨hlinked, hnamed, h⟩
    exact ⟨hlinked, hnamed, hother lines c s hopen hclose h⟩
  · rintro lines c s o log hallowed hopen hopening ⟨hlinked, hnamed, h⟩
    exact ⟨hlinked.opened hopening log, hnamed.opened hopening log,
      hopens lines c s o log hallowed hlinked hnamed hopen hopening h⟩
  · rintro lines c s t hclose hmove ⟨hlinked, hnamed, h⟩
    exact ⟨hlinked.closes hmove, hnamed.closes hlinked hmove,
      hcloses lines c s t hlinked hnamed hclose hmove h⟩

theorem Runs.invariant_of_start (P : List Construct → Scopes → Prop) {name : String}
    {isModule : Bool} {deps : List Dependency} {lines : List Construct} {s : Scopes}
    (hruns : (Scopes.start name isModule deps).Runs lines s)
    (hstart : P [] (Scopes.start name isModule deps))
    (hstays : ∀ lines c s t, s.Linked → s.Named → Stays s c t → P lines s → P lines t)
    (hother : ∀ lines c s, c.opens = false → c.closes = false → P lines s → P (lines ++ [c]) s)
    (hopens : ∀ lines c s o log, s.Linked → s.Named → c.opens = true → Opening s c o →
      P lines s → P (lines ++ [c]) (s.opened o log))
    (hcloses : ∀ lines c s t, s.Linked → s.Named → c.closes = true → Closes s t → P lines s →
      P (lines ++ [c]) t) : s.Linked ∧ s.Named ∧ P lines s :=
  hruns.invariant_of_start_along (fun _ _ => True) P (fun _ _ _ _ => trivial) hstart
    (fun lines c s t _ => hstays lines c s t) hother
    (fun lines c s o log _ => hopens lines c s o log) hcloses

theorem Runs.linked_named {name : String} {isModule : Bool} {deps : List Dependency}
    {lines : List Construct} {s : Scopes} (hruns : (Scopes.start name isModule deps).Runs lines s) :
    s.Linked ∧ s.Named := by
  obtain ⟨hlinked, hnamed, _⟩ := hruns.invariant_of_start (fun _ _ => True) trivial
    (fun _ _ _ _ _ _ _ _ => trivial) (fun _ _ _ _ _ _ => trivial)
    (fun _ _ _ _ _ _ _ _ _ _ => trivial) (fun _ _ _ _ _ _ _ _ _ => trivial)
  exact ⟨hlinked, hnamed⟩

theorem require_ok {s : Scopes} {name : String} {value : Value} :
    s.require name = .ok value ↔ s.resolve name = some value := by
  unfold require
  cases s.resolve name <;> simp

end Scopes

end LineScript
