import LineScript.Proofs.InnerScopes

/-!
# Refused operations

An operation that ends in a fault leaves no trace in the store or in the open scopes; only an import
says in the log that it has been tried. No operation looks at the log. So the operations of a run
that end in a fault can be left out of it, and the others do what they did.
-/
namespace LineScript

theorem breaks_of_not_ok {σ α : Type} {m : ExceptT Fault (StateM σ) α} {s : σ}
    (h : (m.run s).1.isOk = false) : Breaks m s (m.run s).2 := by
  cases hm : m.run s with
  | mk result t =>
    rw [hm] at h
    cases result with
    | ok a => cases h
    | error fault => exact ⟨fault, hm⟩

namespace Scopes

/-- The scopes without what has been logged. -/
def unlogged (s : Scopes) : Scopes :=
  { s with log := [] }

/-- The operations of a run that do not end in a fault when their turn comes. -/
def accepted (s : Scopes) : List Operation → List Operation
  | [] => []
  | op :: ops =>
    if s.allows op then op :: (s.perform op).accepted ops else (s.perform op).accepted ops

end Scopes

namespace Session

variable {α β : Type}

/-- Neither the result nor what the operation does to the scopes depends on what is logged before
it. -/
def Blind (m : Session α) : Prop :=
  ∀ s t : Scopes, s.unlogged = t.unlogged →
    (m.run s).1 = (m.run t).1 ∧ (m.run s).2.unlogged = (m.run t).2.unlogged

theorem blind_pure (a : α) : Blind (pure a) :=
  fun _ _ h => ⟨rfl, h⟩

theorem blind_throw (fault : Fault) : Blind (throw fault : Session α) :=
  fun _ _ h => ⟨rfl, h⟩

theorem blind_ofExcept (result : Except Fault α) : Blind (ofExcept result) := by
  cases result with
  | error fault => exact blind_throw fault
  | ok a => exact blind_pure a

theorem Blind.bind {m : Session α} {f : α → Session β} (hm : Blind m) (hf : ∀ a, Blind (f a)) :
    Blind (m >>= f) := by
  intro s t h
  obtain ⟨hresult, hstate⟩ := hm s t h
  rw [run_bind, run_bind]
  cases hs : m.run s with
  | mk result s' =>
    cases ht : m.run t with
    | mk result' t' =>
      rw [hs, ht] at hresult hstate
      cases hresult
      cases result with
      | error fault => exact ⟨rfl, hstate⟩
      | ok a => exact hf a s' t' hstate

theorem blind_get_bind {f : Scopes → Session α} (hreads : ∀ s : Scopes, f s.unlogged = f s)
    (hf : ∀ s, Blind (f s)) : Blind (get >>= f) := by
  intro s t h
  have hsame : f s = f t := by
    rw [← hreads s, h, hreads t]
  change ((f s).run s).1 = ((f t).run t).1 ∧ _ = ((f t).run t).2.unlogged
  rw [← hsame]
  exact hf s s t h

theorem blind_modify {f : Scopes → Scopes}
    (hf : ∀ s : Scopes, (f s.unlogged).unlogged = (f s).unlogged) :
    Blind (modify f : Session PUnit) := by
  intro s t h
  refine ⟨rfl, ?_⟩
  change (f s).unlogged = (f t).unlogged
  rw [← hf s, h, hf t]

theorem blind_note (level : LogLevel) (message : String) : Blind (note level message) :=
  blind_modify fun _ => rfl

theorem blind_edit (e : Edit α) : Blind (edit e) := by
  intro s t h
  have hstore : s.store = t.store := (congrArg Scopes.store h :)
  rw [run_edit, run_edit, ← hstore]
  exact ⟨rfl, congrArg (fun u : Scopes => { u with store := (e.run s.store).2 }) h⟩

theorem blind_openScope (block : BlockId) (merge : Merge) : Blind (openScope block merge) :=
  blind_get_bind (fun _ => rfl) fun _ => (blind_note _ _).bind fun _ =>
    (blind_modify fun _ => rfl).bind fun _ => blind_pure _

theorem blind_pushKind (kind : BlockKind) : Blind (pushKind kind) := by
  unfold pushKind
  split_ifs
  · exact (blind_throw _).bind fun _ => (blind_edit _).bind fun block => blind_openScope block _
  · exact (blind_edit _).bind fun block => blind_openScope block _

theorem blind_enter (block : BlockId) : Blind (enter block) := by
  refine blind_get_bind (fun _ => rfl) fun s => (blind_ofExcept _).bind fun entered => ?_
  split_ifs
  · exact (blind_throw _).bind fun _ => blind_openScope block _
  · exact blind_openScope block _

theorem blind_enterHandler (signal : Signal) (routine : BlockId) :
    Blind (enterHandler signal routine) := by
  refine blind_get_bind (fun _ => rfl) fun s => (blind_ofExcept _).bind fun entered => ?_
  split_ifs
  · exact (blind_throw _).bind fun _ => blind_openScope routine _
  · exact blind_openScope routine _

theorem blind_pop : Blind pop := by
  refine blind_get_bind (fun _ => rfl) fun s => ?_
  cases s.outer with
  | nil => exact blind_throw _
  | cons parent outer =>
    exact (blind_edit _).bind fun _ => (blind_modify fun _ => rfl).bind fun _ =>
      (blind_note _ _).bind fun _ => blind_pure _

theorem blind_bind (name : String) (value : Value) : Blind (bind name value) := by
  refine blind_get_bind (fun _ => rfl) fun s => ?_
  split_ifs
  · exact (blind_note _ _).bind fun _ => blind_modify fun _ => rfl
  · exact blind_modify fun _ => rfl

theorem blind_append (element : Element) : Blind (append element) :=
  blind_get_bind (fun _ => rfl) fun _ => blind_edit _

theorem blind_declare (name : String) (value : Value) : Blind (declare name value) :=
  (blind_append _).bind fun _ => (blind_bind name value).bind fun _ =>
    blind_get_bind (fun _ => rfl) fun _ => blind_pure _

theorem Blind.silent {m : Session α} (h : Blind m) : Blind (silent m) :=
  h.bind fun _ => blind_pure _

theorem blind_run (op : Operation) : Blind op.run := by
  cases op with
  | push => exact ((blind_edit _).bind fun block => blind_openScope block _).silent
  | pushKind kind => exact (blind_pushKind kind).silent
  | enter block => exact (blind_enter block).silent
  | enterHandler signal routine => exact (blind_enterHandler signal routine).silent
  | pop => exact blind_pop.silent
  | declare name value => exact (blind_declare name value).silent
  | bind name value => exact blind_bind name value
  | declareRoutine name routine => exact blind_modify fun _ => rfl
  | append element => exact blind_append element
  | importModule dependency =>
    exact (blind_note _ _).bind fun _ => blind_get_bind (fun _ => rfl) fun _ => blind_edit _
  | setPackage path => exact blind_get_bind (fun _ => rfl) fun _ => blind_edit _

end Session

namespace Scopes

variable {s t : Scopes}

theorem perform_of_unlogged (op : Operation) (h : s.unlogged = t.unlogged) :
    (s.perform op).unlogged = (t.perform op).unlogged :=
  (Session.blind_run op s t h).2

theorem perform_refused {op : Operation} (h : s.allows op = false) :
    (s.perform op).unlogged = s.unlogged := by
  obtain ⟨log, hlog⟩ := log_of_breaks (breaks_of_not_ok h)
  rw [perform, hlog]
  rfl

/-- The operations that are not refused do without the others what they do among them. The two runs
differ in their logs from the first import that is refused. -/
theorem performAll_accepted (ops : List Operation) (h : s.unlogged = t.unlogged) :
    (s.performAll ops).unlogged = (t.performAll (s.accepted ops)).unlogged := by
  induction ops generalizing s t with
  | nil => exact h
  | cons op ops ih =>
    cases hallows : s.allows op with
    | false =>
      have hskip : s.accepted (op :: ops) = (s.perform op).accepted ops := by
        rw [accepted, hallows]
        rfl
      rw [hskip]
      exact ih ((perform_refused hallows).trans h)
    | true =>
      have hkeep : s.accepted (op :: ops) = op :: (s.perform op).accepted ops := by
        rw [accepted, hallows]
        rfl
      rw [hkeep]
      exact ih (perform_of_unlogged op h)

end Scopes

/-- What is refused leaves no trace. An element that cannot be added to a block leaves the store as
it was. An operation on the open scopes that ends in a fault leaves the store and the scopes as they
were, and an import that does adds to the log that it was tried, and does nothing else. In any run
of operations, those that end in a fault may be left out: the store and the scopes at the end are
the same. -/
theorem refusals_leave_no_trace :
    (∀ parent element, Guarded (Edit.append parent element)) ∧
      Guarded Session.pop ∧
      (∀ name value, Guarded (Session.declare name value)) ∧
      (∀ element, Guarded (Session.append element)) ∧
      (∀ path, Guarded (Session.setPackage path)) ∧
      (∀ kind, Guarded (Session.pushKind kind)) ∧
      (∀ block, Guarded (Session.enter block)) ∧
      (∀ signal routine, Guarded (Session.enterHandler signal routine)) ∧
      (∀ dependency s t, Breaks (Session.importModule dependency) s t →
        t = { s with log := s.log ++ [⟨.debug, s!"import {dependency.module}"⟩] }) ∧
      ∀ (s : Scopes) (ops : List Operation),
        (s.performAll ops).unlogged = (s.performAll (s.accepted ops)).unlogged := by
  refine ⟨Edit.append_guarded, Session.pop_guarded, Session.declare_guarded,
    Session.appendTo_guarded fun s => s.current.block,
    fun path => Session.appendTo_guarded Scopes.file _, Session.pushKind_guarded,
    Session.enter_guarded, Session.enterHandler_guarded, ?_, ?_⟩
  · intro dependency s t h
    exact Session.importModule_breaks h
  · intro s ops
    exact Scopes.performAll_accepted ops rfl

/-- A script and a scope in it, each after a return. -/
def afterReturns : Scopes :=
  Scopes.performAll
    ⟨Store.empty.after (.newFile "t" false []), 0, ⟨[0], 0, [], [], 0, .block⟩, [], []⟩
    [.append (.statement (.giveBack (.ofValues []))), .push,
      .append (.statement (.giveBack (.ofValues [])))]

/-- One operation of each kind that can be refused. -/
def refusals : List Operation :=
  [.pop, .declare "a" (.placeholder "a" .integer), .append (.text "a"), .setPackage "p",
    .pushKind (.file ⟨"t", false, false, none⟩), .enter 0, .enterHandler .int 0,
    .importModule ⟨"strict", none⟩]

theorem refusals_leave_no_trace_afterReturns :
    (∀ op ∈ refusals, afterReturns.allows op = false) ∧
      (afterReturns.performAll refusals).unlogged = afterReturns.unlogged ∧
      Breaks (Edit.append 0 (.text "a")) afterReturns.store afterReturns.store ∧
      (afterReturns.perform (.importModule ⟨"strict", none⟩)).log =
        afterReturns.log ++ [⟨.debug, "import strict"⟩] ∧
      (afterReturns.accepted (refusals ++ [.push, .enter 0, .push])).length = 2 := by
  obtain ⟨happend, _, _, _, _, _, _, _, himport, hruns⟩ := refusals_leave_no_trace
  have hnone : afterReturns.accepted refusals = [] :=
    List.eq_nil_of_length_eq_zero (by decide +kernel)
  have hbreaks := breaks_of_not_ok (m := Edit.append 0 (.text "a")) (s := afterReturns.store)
    (by decide +kernel)
  have hlogged := himport ⟨"strict", none⟩ afterReturns _ (breaks_of_not_ok (by decide +kernel))
  refine ⟨by decide +kernel, ?_, ?_, congrArg Scopes.log hlogged, by decide +kernel⟩
  · rw [hruns, hnone]
    rfl
  · rwa [happend 0 _ _ _ hbreaks] at hbreaks

end LineScript
