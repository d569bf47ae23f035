import LineScript.Proofs.Changes
import LineScript.Proofs.Lines

/-!
# Inner scopes do not leak

The operations on open scopes may be performed in any order and with any arguments, and may end in a
fault. Each of them changes the innermost scopes only: it opens one, closes one, or binds a name in
the current one. Once the scopes that were opened inside a scope are closed again, names mean what
they meant before, and lines go to the block that they went to before.
-/
namespace LineScript

namespace Session

/-- The operation without its result. -/
def silent {α : Type} (m : Session α) : Session Unit := do
  let _ ← m
  return

end Session

inductive Operation where
  | push
  | pushKind (kind : BlockKind)
  | enter (block : BlockId)
  | enterHandler (signal : Signal) (routine : BlockId)
  | pop
  | declare (name : String) (value : Value)
  | bind (name : String) (value : Value)
  | declareRoutine (name : String) (routine : BlockId)
  | append (element : Element)
  | importModule (dependency : Dependency)
  | setPackage (path : String)

namespace Operation

def run : Operation → Session Unit
  | push => Session.silent Session.push
  | pushKind kind => Session.silent (Session.pushKind kind)
  | enter block => Session.silent (Session.enter block)
  | enterHandler signal routine => Session.silent (Session.enterHandler signal routine)
  | pop => Session.silent Session.pop
  | declare name value => Session.silent (Session.declare name value)
  | bind name value => Session.bind name value
  | declareRoutine name routine => Session.declareRoutine name routine
  | append element => Session.append element
  | importModule dependency => Session.importModule dependency
  | setPackage path => Session.setPackage path

/-- The operation opens a scope inside the current one. -/
def opens : Operation → Bool
  | push | pushKind _ | enter _ | enterHandler _ _ => true
  | _ => false

/-- The operation gives a name a meaning in the current scope. -/
def binds : Operation → Bool
  | declare _ _ | bind _ _ | declareRoutine _ _ => true
  | _ => false

end Operation

namespace Scopes

/-- The scopes after an operation, which may have ended in a fault. -/
def perform (s : Scopes) (op : Operation) : Scopes :=
  (op.run.run s).2

def performAll (s : Scopes) (ops : List Operation) : Scopes :=
  ops.foldl perform s

/-- The operation does not end in a fault. -/
def allows (s : Scopes) (op : Operation) : Bool :=
  (op.run.run s).1.isOk

end Scopes

section Faults

variable {σ α β : Type}

theorem Guarded.bind_unbroken {m : ExceptT Fault (StateM σ) α}
    {f : α → ExceptT Fault (StateM σ) β} (h : Guarded m)
    (hf : ∀ a s t, ¬ Breaks (f a) s t) : Guarded (m >>= f) := by
  intro s u hbreaks
  rcases breaks_bind hbreaks with hbreaks | ⟨a, t, _, hbreaks⟩
  · exact h s u hbreaks
  · exact absurd hbreaks (hf a t u)

end Faults

namespace Session

variable {α : Type}

theorem succeeds_silent {m : Session α} {s t : Scopes} {a : Unit} (h : Succeeds (silent m) s a t) :
    ∃ a, Succeeds m s a t := by
  unfold silent at h
  rw [succeeds_bind] at h
  obtain ⟨a, u, hm, h⟩ := h
  obtain ⟨_, rfl⟩ := (succeeds_pure _ _ _ _).mp h
  exact ⟨a, hm⟩

theorem silent_guarded {m : Session α} (h : Guarded m) : Guarded (silent m) :=
  h.bind_unbroken fun _ s t => not_breaks_pure _ s t

theorem looks_ofExcept (result : Except Fault α) : Looks (ofExcept result) := by
  intro s
  cases result <;> rfl

theorem run_edit (e : Edit α) (s : Scopes) :
    (edit e).run s = ((e.run s.store).1, { s with store := (e.run s.store).2 }) := by
  change (ofExcept (e.run s.store).1).run { s with store := (e.run s.store).2 } = _
  cases (e.run s.store).1 <;> rfl

theorem edit_guarded {e : Edit α} (h : Guarded e) : Guarded (edit e) := by
  rintro s t ⟨fault, hbreaks⟩
  rw [run_edit] at hbreaks
  obtain ⟨hfault, rfl⟩ := Prod.mk.inj hbreaks
  have hstore : (e.run s.store).2 = s.store :=
    h s.store _ ⟨fault, Prod.ext hfault rfl⟩
  rw [hstore]

theorem not_breaks_openScope (block : BlockId) (merge : Merge) (s t : Scopes) :
    ¬ Breaks (openScope block merge) s t := by
  rintro ⟨fault, h⟩
  cases congrArg Prod.fst h

theorem not_breaks_bind (name : String) (value : Value) (s t : Scopes) :
    ¬ Breaks (bind name value) s t := by
  intro h
  rcases breaks_bind h with ⟨fault, h⟩ | ⟨u, v, _, h⟩
  · cases congrArg Prod.fst h
  · split_ifs at h <;> obtain ⟨fault, h⟩ := h <;> cases congrArg Prod.fst h

theorem alloc_guarded (kind : BlockKind) : Guarded (edit (Edit.alloc kind)) :=
  edit_guarded fun _ _ h => absurd h (Edit.not_breaks_alloc kind)

theorem pushKind_guarded (kind : BlockKind) : Guarded (pushKind kind) := by
  unfold pushKind
  split_ifs
  · exact (looks_throw_bind _ _).guarded
  · exact (alloc_guarded kind).bind_unbroken fun block => not_breaks_openScope block .block

theorem enter_guarded (block : BlockId) : Guarded (enter block) := by
  unfold enter
  refine looks_get.bind_guarded fun s => (looks_ofExcept _).bind_guarded fun entered => ?_
  split_ifs
  · exact (looks_throw_bind _ _).guarded
  · exact fun s t h => absurd h (not_breaks_openScope block .block s t)

theorem enterHandler_guarded (signal : Signal) (routine : BlockId) :
    Guarded (enterHandler signal routine) := by
  unfold enterHandler
  refine looks_get.bind_guarded fun s => (looks_ofExcept _).bind_guarded fun entered => ?_
  split_ifs
  · exact (looks_throw_bind _ _).guarded
  · exact fun s t h => absurd h (not_breaks_openScope routine (.handler signal) s t)

theorem pop_guarded : Guarded pop := by
  unfold pop
  refine looks_get.bind_guarded fun s => ?_
  cases s.outer with
  | nil => exact (looks_throw _).guarded
  | cons parent outer =>
    refine (edit_guarded (Edit.append_guarded _ _)).bind_unbroken ?_
    rintro _ s t ⟨fault, h⟩
    cases congrArg Prod.fst h

/-- An element that cannot be added to a block leaves the scopes and the store as they were. -/
theorem appendTo_guarded (target : Scopes → BlockId) (element : Element) :
    Guarded (do edit (Edit.append (target (← get)) element)) :=
  looks_get.bind_guarded fun _ => edit_guarded (Edit.append_guarded _ _)

theorem declare_guarded (name : String) (value : Value) : Guarded (declare name value) := by
  refine (appendTo_guarded (fun s => s.current.block) _).bind_unbroken fun _ s t h => ?_
  rcases breaks_bind h with h | ⟨_, u, _, h⟩
  · exact not_breaks_bind name value s t h
  · obtain ⟨fault, h⟩ := h
    cases congrArg Prod.fst h

/-- An import that breaks off leaves nothing but its entry in the log. -/
theorem importModule_breaks {dependency : Dependency} {s t : Scopes}
    (h : Breaks (importModule dependency) s t) :
    t = { s with log := s.log ++ [⟨.debug, s!"import {dependency.module}"⟩] } := by
  rcases breaks_bind h with h | ⟨_, u, hnote, h⟩
  · exact absurd h (not_breaks_modify _ _ _)
  · obtain rfl := (succeeds_modify _ _ _ _).mp hnote
    exact appendTo_guarded Scopes.file _ _ _ h

end Session

namespace Scopes

/-- What an operation can do to the open scopes. -/
inductive Effect (s : Scopes) (op : Operation) (t : Scopes) : Prop where
  | still (hall : t.all = s.all)
  | opened (scope : Scope)
      (hall : t.all = scope :: { s.current with children := s.current.children + 1 } :: s.outer)
  | closed (hall : t.all = s.outer)
  | bound (scope : Scope) (hbinds : op.binds = true) (hallows : s.allows op = true)
      (hall : t.all = scope :: s.outer)

variable {s t : Scopes}

theorem allows_of_succeeds {op : Operation} {a : Unit} (h : Succeeds op.run s a t) :
    s.allows op = true := by
  unfold allows
  rw [show op.run.run s = (.ok a, t) from h]
  rfl

theorem allows_of_breaks {op : Operation} (h : Breaks op.run s t) : s.allows op = false := by
  obtain ⟨fault, h⟩ := h
  unfold allows
  rw [h]
  rfl

/-- The scopes that are open after an operation without a fault. -/
inductive Outcome (s : Scopes) (op : Operation) : List Scope → Prop where
  | still (hopens : op.opens = false) : Outcome s op s.all
  | opened (block : BlockId) (merge : Merge) (hopens : op.opens = true) :
      Outcome s op
        (⟨s.path ++ [s.current.children], block, [], [], 0, merge⟩ ::
          { s.current with children := s.current.children + 1 } :: s.outer)
  | closed {parent : Scope} {outer : List Scope} (hopens : op.opens = false)
      (houter : s.outer = parent :: outer) : Outcome s op (parent :: outer)
  | bound (values : List (String × Value)) (routines : List (String × BlockId))
      (hopens : op.opens = false) (hbinds : op.binds = true) :
      Outcome s op ({ s.current with values := values, routines := routines } :: s.outer)

theorem outcome_opened {op : Operation} (hopens : op.opens = true) {store : Store}
    {block : BlockId} {merge : Merge} {path : ScopePath}
    (h : Succeeds (Session.openScope block merge) { s with store := store } path t) :
    s.Outcome op t.all := by
  obtain ⟨log, rfl⟩ := Session.openScope_ok h
  exact .opened block merge hopens

theorem outcome_of_succeeds {op : Operation} {a : Unit} (h : Succeeds op.run s a t) :
    s.Outcome op t.all := by
  cases op with
  | push =>
    obtain ⟨path, h⟩ := Session.succeeds_silent h
    obtain ⟨block, store, _, h⟩ := (Session.succeeds_edit_bind _ _ _ _ _).mp h
    exact outcome_opened rfl h
  | pushKind kind =>
    obtain ⟨path, h⟩ := Session.succeeds_silent h
    unfold Session.pushKind at h
    split_ifs at h
    · exact absurd h (succeeds_throw_bind _ _ _ _ _)
    · obtain ⟨block, store, _, h⟩ := (Session.succeeds_edit_bind _ _ _ _ _).mp h
      exact outcome_opened rfl h
  | enter block =>
    obtain ⟨path, h⟩ := Session.succeeds_silent h
    obtain ⟨log, rfl⟩ := Session.enter_ok h
    exact .opened block .block rfl
  | enterHandler signal routine =>
    obtain ⟨path, h⟩ := Session.succeeds_silent h
    obtain ⟨log, rfl⟩ := Session.enterHandler_ok h
    exact .opened routine (.handler signal) rfl
  | pop =>
    obtain ⟨path, h⟩ := Session.succeeds_silent h
    cases Session.pop_ok h with
    | close log houter _ => exact .closed rfl houter
  | declare name value =>
    obtain ⟨path, h⟩ := Session.succeeds_silent h
    obtain ⟨store, log, _, rfl⟩ := Session.declare_ok h
    exact .bound _ _ rfl rfl
  | bind name value =>
    obtain ⟨log, rfl⟩ := Session.bind_ok h
    exact .bound _ _ rfl rfl
  | declareRoutine name routine =>
    obtain rfl := (succeeds_modify _ _ _ _).mp h
    exact .bound _ _ rfl rfl
  | append element =>
    obtain ⟨store, _, rfl⟩ := Session.append_ok h
    exact .still rfl
  | importModule dependency =>
    obtain ⟨log, h⟩ := Session.debug_bind h
    rw [succeeds_get_bind, Session.succeeds_edit] at h
    obtain ⟨store, _, rfl⟩ := h
    exact .still rfl
  | setPackage path =>
    unfold Operation.run Session.setPackage at h
    rw [succeeds_get_bind, Session.succeeds_edit] at h
    obtain ⟨store, _, rfl⟩ := h
    exact .still rfl

theorem effect_of_succeeds {op : Operation} {a : Unit} (h : Succeeds op.run s a t) :
    s.Effect op t := by
  have hallows := allows_of_succeeds h
  have houtcome := outcome_of_succeeds h
  generalize hall : t.all = scopes at houtcome
  cases houtcome with
  | still _ => exact .still hall
  | opened block merge _ => exact .opened _ hall
  | closed _ houter => exact .closed (hall.trans houter.symm)
  | bound values routines _ hbinds => exact .bound _ hbinds hallows hall

/-- A fault leaves everything but the log as it was. -/
theorem log_of_breaks {op : Operation} (h : Breaks op.run s t) :
    ∃ log, t = { s with log := log } := by
  have hguarded (hm : Guarded op.run) : ∃ log, t = { s with log := log } := ⟨s.log, hm s t h⟩
  cases op with
  | push =>
    have hpush : Guarded Session.push :=
      (Session.alloc_guarded .plain).bind_unbroken fun block =>
        Session.not_breaks_openScope block .block
    exact hguarded (Session.silent_guarded hpush)
  | pushKind kind => exact hguarded (Session.silent_guarded (Session.pushKind_guarded kind))
  | enter block => exact hguarded (Session.silent_guarded (Session.enter_guarded block))
  | enterHandler signal routine =>
    exact hguarded (Session.silent_guarded (Session.enterHandler_guarded signal routine))
  | pop => exact hguarded (Session.silent_guarded Session.pop_guarded)
  | declare name value =>
    exact hguarded (Session.silent_guarded (Session.declare_guarded name value))
  | bind name value => exact absurd h (Session.not_breaks_bind name value s t)
  | declareRoutine name routine => exact absurd h (not_breaks_modify _ s t)
  | append element => exact hguarded (Session.appendTo_guarded (fun s => s.current.block) element)
  | importModule dependency => exact ⟨_, Session.importModule_breaks h⟩
  | setPackage path => exact hguarded (Session.appendTo_guarded file _)

theorem all_of_breaks {op : Operation} (h : Breaks op.run s t) : t.all = s.all := by
  obtain ⟨log, rfl⟩ := log_of_breaks h
  rfl

theorem effect_perform (s : Scopes) (op : Operation) : s.Effect op (s.perform op) :=
  run_cases (P := s.Effect op) op.run s (fun _ _ h => effect_of_succeeds h)
    fun _ h => .still (all_of_breaks h)

end Scopes

/-- The scope without the count of the scopes that have been opened inside. -/
def Scope.lasting (scope : Scope) : Scope :=
  { scope with children := 0 }

namespace Scopes

variable {s t : Scopes}

/-- The scopes around a depth and the one at it. -/
def below (s : Scopes) (depth : Nat) : List Scope :=
  (s.all.map Scope.lasting).drop (s.depth - depth)

theorem depth_of_all {scopes : List Scope} (h : s.all = scopes) : s.depth + 1 = scopes.length := by
  rw [← h]
  rfl

/-- An operation leaves the scopes up to a depth as they are, unless it binds a name there. -/
theorem Effect.below_eq {op : Operation} {depth : Nat} (h : s.Effect op t) (hs : depth ≤ s.depth)
    (ht : depth ≤ t.depth)
    (hbinds : s.depth = depth → op.binds = true → s.allows op = false) :
    t.below depth = s.below depth := by
  unfold below
  cases h with
  | still hall =>
    have hdepth : t.depth = s.depth := Nat.succ.inj (depth_of_all hall)
    rw [hall, hdepth]
  | opened scope hall =>
    have hdepth : t.depth = s.depth + 1 := Nat.succ.inj (depth_of_all hall)
    rw [hall, hdepth, Nat.succ_sub hs]
    rfl
  | closed hall =>
    have hdepth : t.depth + 1 = s.depth := depth_of_all hall
    rw [hall, ← hdepth, Nat.succ_sub ht]
    rfl
  | bound scope hop hallows hall =>
    have hdepth : t.depth = s.depth := Nat.succ.inj (depth_of_all hall)
    have hlt : depth < s.depth := by
      refine Nat.lt_of_le_of_ne hs fun heq => ?_
      rw [hbinds heq.symm hop] at hallows
      cases hallows
    -- The scope that takes the name is deeper and dropped on both sides.
    obtain ⟨n, hn⟩ := Nat.exists_eq_add_of_lt hlt
    have hdrop : s.depth - depth = n + 1 := by omega
    rw [hall, hdepth, hdrop]
    rfl

/-- The invariant of a run: the scopes up to the depth are those at its start. -/
theorem below_performAll {depth : Nat} (s : Scopes) (ops : List Operation)
    (hinside : ∀ n ≤ ops.length, depth ≤ (s.performAll (ops.take n)).depth)
    (hbinds : ∀ n (hn : n < ops.length), (s.performAll (ops.take n)).depth = depth →
      ops[n].binds = true → (s.performAll (ops.take n)).allows ops[n] = false) :
    (s.performAll ops).below depth = s.below depth := by
  induction ops generalizing s with
  | nil => rfl
  | cons op rest ih =>
    have hstart := hinside 0 (Nat.zero_le _)
    have hnext := hinside 1 (Nat.succ_le_succ (Nat.zero_le _))
    have hrest := ih (s.perform op) (fun n hn => hinside (n + 1) (Nat.succ_le_succ hn))
      fun n hn => hbinds (n + 1) (Nat.succ_lt_succ hn)
    exact hrest.trans ((effect_perform s op).below_eq hstart hnext
      (hbinds 0 (Nat.succ_pos _)))

theorem below_depth (s : Scopes) : s.below s.depth = s.all.map Scope.lasting := by
  rw [below, Nat.sub_self, List.drop_zero]

/-- What can be asked of the open scopes does not depend on the count of scopes opened inside. -/
theorem answers_of_lasting (h : t.all.map Scope.lasting = s.all.map Scope.lasting) :
    (∀ name, t.resolve name = s.resolve name) ∧
      (∀ name, t.resolveRoutine name = s.resolveRoutine name) ∧
      t.path = s.path ∧ t.current.block = s.current.block := by
  have hfind {α : Type} (f : Scope → Option α) (hf : ∀ scope, f scope.lasting = f scope) :
      t.all.findSome? f = s.all.findSome? f := by
    have hlasting : f ∘ Scope.lasting = f := funext hf
    have hmap := congrArg (List.findSome? f) h
    rwa [List.findSome?_map, List.findSome?_map, hlasting] at hmap
  have hpath := congrArg Scope.path (List.cons.inj h).1
  have hblock := congrArg Scope.block (List.cons.inj h).1
  exact ⟨fun name => hfind _ fun _ => rfl, fun name => hfind _ fun _ => rfl, hpath, hblock⟩

end Scopes

/-- Inner scopes do not leak. Take any operations on the open scopes, some of which may end in a
fault, that never close the current scope, bind no name in it, and end in it. Afterwards every name
means what it meant before, as a variable and as a routine, and the place of the scope and its block
are the same. -/
theorem inner_scopes_never_leak (s : Scopes) (ops : List Operation)
    (hinside : ∀ n ≤ ops.length, s.depth ≤ (s.performAll (ops.take n)).depth)
    (hbinds : ∀ n (hn : n < ops.length), (s.performAll (ops.take n)).depth = s.depth →
      ops[n].binds = true → (s.performAll (ops.take n)).allows ops[n] = false)
    (hends : (s.performAll ops).depth = s.depth) :
    (∀ name, (s.performAll ops).resolve name = s.resolve name) ∧
      (∀ name, (s.performAll ops).resolveRoutine name = s.resolveRoutine name) ∧
      (s.performAll ops).path = s.path ∧
      (s.performAll ops).current.block = s.current.block := by
  apply Scopes.answers_of_lasting
  have hbelow := s.below_performAll ops hinside hbinds
  rwa [← hends, Scopes.below_depth, hends, Scopes.below_depth] at hbelow

/-- A scope inside that of a file, with a variable outside and a routine inside. -/
def innerStart : Scopes :=
  Scopes.performAll
    ⟨Store.empty.after (.newFile "t" false []), 0, ⟨[0], 0, [], [], 0, .block⟩, [], []⟩
    [.declare "a" (.placeholder "a" .integer), .push, .declareRoutine "f" 7]

/-- Both names are bound anew two scopes further in. Then the scope takes a return, so that the last
declaration is refused. -/
def shadowing : List Operation :=
  [.push, .declareRoutine "f" 9, .push, .declare "a" (.placeholder "a" .string), .enter 0, .pop,
    .bind "b" (.placeholder "b" .integer), .pop, .importModule ⟨"strict", none⟩,
    .append (.statement (.giveBack (.ofValues []))), .declare "a" (.placeholder "a" .string)]

theorem inner_scopes_never_leak_shadowing :
    ((innerStart.performAll (shadowing.take 4)).resolve "a").map Value.kind = some .string ∧
      (innerStart.performAll (shadowing.take 4)).resolveRoutine "f" = some 9 ∧
      ((innerStart.performAll shadowing).resolve "a").map Value.kind = some .integer ∧
      (innerStart.performAll shadowing).resolveRoutine "f" = some 7 ∧
      (innerStart.performAll shadowing).resolve "b" = none ∧
      (innerStart.performAll shadowing).path = [0, 0] := by
  obtain ⟨hresolve, hroutine, hpath, _⟩ := inner_scopes_never_leak innerStart shadowing
    (by decide +kernel) (by decide +kernel) (by decide +kernel)
  rw [hresolve, hresolve, hroutine, hpath]
  exact ⟨by decide +kernel, by decide +kernel, by decide +kernel, by decide +kernel, rfl,
    by decide +kernel⟩

end LineScript
