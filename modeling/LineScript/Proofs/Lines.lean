import LineScript.Proofs.Moves

/-!
# Lines and runs

Every line that is applied without a fault is one of the moves of the open scopes, and a script
that compiles is a run of such lines from the scope of the file back to it. Properties of
compiled scripts are shown by induction over these runs.
-/
namespace LineScript

/-- The scopes with one more inside, over a block that is there. -/
def Scopes.descend (s : Scopes) (block : BlockId) (merge : Merge) (log : List LogEntry) :
    Scopes :=
  { s with
    current := ⟨s.current.path ++ [s.current.children], block, [], [], 0, merge⟩
    outer := { s.current with children := s.current.children + 1 } :: s.outer
    log := log }

namespace Session

variable {s t : Scopes}

theorem note_ok {level : LogLevel} {message : String} {a : Unit}
    (h : Succeeds (note level message) s a t) : ∃ log, t = { s with log := log } :=
  ⟨_, ((succeeds_modify _ _ _ _).mp h).symm⟩

theorem openScope_ok {block : BlockId} {merge : Merge} {path : ScopePath}
    (h : Succeeds (openScope block merge) s path t) :
    ∃ log, t = s.descend block merge log := by
  unfold openScope at h
  rw [succeeds_get_bind, succeeds_bind] at h
  obtain ⟨⟨⟩, u, hnote, h⟩ := h
  obtain ⟨log, rfl⟩ := note_ok hnote
  rw [succeeds_modify_bind, succeeds_pure] at h
  exact ⟨log, h.2.symm⟩

theorem enter_ok {block : BlockId} {path : ScopePath} (h : Succeeds (enter block) s path t) :
    ∃ log, t = s.descend block .block log := by
  unfold enter at h
  rw [succeeds_get_bind, succeeds_ofExcept_bind] at h
  obtain ⟨entered, _, h⟩ := h
  split_ifs at h
  · exact absurd h (succeeds_throw_bind _ _ _ _ _)
  · exact openScope_ok h

theorem enterHandler_ok {signal : Signal} {routine : BlockId} {path : ScopePath}
    (h : Succeeds (enterHandler signal routine) s path t) :
    ∃ log, t = s.descend routine (.handler signal) log := by
  unfold enterHandler at h
  rw [succeeds_get_bind, succeeds_ofExcept_bind] at h
  obtain ⟨entered, _, h⟩ := h
  split_ifs at h
  · exact absurd h (succeeds_throw_bind _ _ _ _ _)
  · exact openScope_ok h

theorem bind_ok {name : String} {value : Value} {a : Unit} (h : Succeeds (bind name value) s a t) :
    ∃ log, t =
      { s with
        current := { s.current with values := (name, value) :: s.current.values }
        log := log } := by
  unfold bind at h
  rw [succeeds_get_bind] at h
  split_ifs at h
  · rw [succeeds_bind] at h
    obtain ⟨⟨⟩, u, hnote, h⟩ := h
    obtain ⟨log, rfl⟩ := note_ok hnote
    exact ⟨log, ((succeeds_modify _ _ _ _).mp h).symm⟩
  · exact ⟨s.log, ((succeeds_modify _ _ _ _).mp h).symm⟩

theorem bindAll_ok {bound : List (BoundParameter × Value)} (h : Succeeds (bindAll bound) s () t) :
    ∃ log, t =
      { s with
        current :=
          { s.current with
            values := (bound.map fun p => (p.1.name, p.2)).reverse ++ s.current.values }
        log := log } := by
  induction bound generalizing s with
  | nil => exact ⟨s.log, ((succeeds_pure _ _ _ _).mp h).2.symm⟩
  | cons p rest ih =>
    unfold bindAll at h
    rw [succeeds_bind] at h
    obtain ⟨⟨⟩, u, hbind, h⟩ := h
    obtain ⟨log, rfl⟩ := bind_ok hbind
    obtain ⟨log', rfl⟩ := ih h
    exact ⟨log', by simp⟩

theorem append_ok {element : Element} (h : Succeeds (append element) s () t) :
    ∃ store, Succeeds (Edit.append s.current.block element) s.store () store ∧
      t = { s with store := store } := by
  unfold append at h
  rw [succeeds_get_bind] at h
  exact (succeeds_edit _ _ _ _).mp h

theorem declare_ok {name : String} {value : Value} {path : ScopePath}
    (h : Succeeds (declare name value) s path t) :
    ∃ store log, Succeeds (Edit.append s.current.block (.value value)) s.store () store ∧
      t =
        { s with
          store := store
          current := { s.current with values := (name, value) :: s.current.values }
          log := log } := by
  unfold declare at h
  rw [succeeds_bind] at h
  obtain ⟨⟨⟩, u, hadd, h⟩ := h
  obtain ⟨store, happend, rfl⟩ := append_ok hadd
  rw [succeeds_bind] at h
  obtain ⟨⟨⟩, u, hbind, h⟩ := h
  obtain ⟨log, rfl⟩ := bind_ok hbind
  rw [succeeds_get_bind, succeeds_pure] at h
  exact ⟨store, log, happend, h.2.symm⟩

theorem look_bind {α β : Type} (view : Scopes → Except Fault α) (f : α → Session β) (b : β) :
    Succeeds (look view >>= f) s b t ↔ ∃ a, view s = .ok a ∧ Succeeds (f a) s b t := by
  unfold look
  simp only [succeeds_bind, succeeds_get, succeeds_ofExcept]
  constructor
  · rintro ⟨a, _, ⟨_, _, ⟨rfl, rfl⟩, hview, rfl⟩, h⟩
    exact ⟨a, hview, h⟩
  · rintro ⟨a, hview, h⟩
    exact ⟨a, s, ⟨s, s, ⟨rfl, rfl⟩, hview, rfl⟩, h⟩

theorem debug_bind {β : Type} {message : String} {f : Unit → Session β} {b : β}
    (h : Succeeds (debug message >>= f) s b t) :
    ∃ log, Succeeds (f ()) { s with log := log } b t := by
  rw [succeeds_bind] at h
  obtain ⟨⟨⟩, u, hnote, h⟩ := h
  obtain ⟨log, rfl⟩ := note_ok hnote
  exact ⟨log, h⟩

theorem push_ok {path : ScopePath} (h : Succeeds push s path t) :
    ∃ o log, s.Opening .openScope o ∧ t = s.opened o log := by
  unfold push at h
  rw [succeeds_edit_bind] at h
  obtain ⟨block, store, hnew, h⟩ := h
  obtain ⟨rfl, rfl⟩ := Edit.alloc_ok hnew
  obtain ⟨log, rfl⟩ := openScope_ok h
  exact ⟨_, log, .plain, rfl⟩

theorem pop_closes {path : ScopePath} (h : Succeeds pop s path t) :
    s.Closes t ∧ path = t.path := by
  unfold pop at h
  rw [succeeds_get_bind] at h
  cases houter : s.outer with
  | nil =>
    simp only [houter] at h
    exact absurd h (succeeds_throw _ _ _ _)
  | cons parent outer =>
    simp only [houter] at h
    rw [succeeds_edit_bind] at h
    obtain ⟨⟨⟩, store, happend, h⟩ := h
    rw [succeeds_modify_bind] at h
    obtain ⟨log, h⟩ := debug_bind h
    obtain ⟨rfl, rfl⟩ := (succeeds_pure _ _ _ _).mp h
    exact ⟨.close log houter happend, rfl⟩

theorem pop_ok {path : ScopePath} (h : Succeeds pop s path t) : s.Closes t :=
  (pop_closes h).1

theorem applyDeclaration_ok {type : TypeName} {name : String} {value : Expression}
    (h : Succeeds (applyDeclaration type name value) s () t) :
    s.Stays (.declare type name value) t := by
  unfold applyDeclaration at h
  rw [succeeds_ofExcept_bind] at h
  obtain ⟨⟨kind, element⟩, hkind, h⟩ := h
  rw [look_bind] at h
  obtain ⟨source, hsource, h⟩ := h
  rw [succeeds_ofExcept_bind] at h
  obtain ⟨made, hmade, h⟩ := h
  obtain ⟨log, h⟩ := debug_bind h
  rw [succeeds_bind] at h
  obtain ⟨path, u, hdeclare, h⟩ := h
  obtain ⟨_, rfl⟩ := (succeeds_pure _ _ _ _).mp h
  obtain ⟨store, log', happend, rfl⟩ := declare_ok hdeclare
  exact .declare log' hkind hsource hmade happend

theorem applyAssignment_ok {name : String} {value : Expression}
    (h : Succeeds (applyAssignment name value) s () t) : s.Stays (.assign name value) t := by
  unfold applyAssignment at h
  rw [look_bind] at h
  obtain ⟨target, htarget, h⟩ := h
  rw [look_bind] at h
  obtain ⟨source, hsource, h⟩ := h
  rw [succeeds_ofExcept_bind] at h
  obtain ⟨made, hmade, h⟩ := h
  obtain ⟨log, h⟩ := debug_bind h
  rw [succeeds_ofExcept_bind] at h
  obtain ⟨assignment, hassignment, h⟩ := h
  obtain ⟨store, happend, rfl⟩ := append_ok h
  exact .add log (.assign htarget hsource hmade hassignment) happend

theorem appendCalls_ok {name chain : String} {receiver : Variable}
    {results : List (Except Fault Invocation)} (hreceiver : s.requireVariable name = .ok receiver)
    (hsub : ∀ result ∈ results, result ∈ (Chain.ofText chain).results.1)
    (h : Succeeds (appendCalls receiver results) s () t) :
    Relation.ReflTransGen (fun s t => Scopes.Stays s (.methodChain name chain) t) s t := by
  induction results generalizing s with
  | nil =>
    obtain ⟨_, rfl⟩ := (succeeds_pure _ _ _ _).mp h
    exact .refl
  | cons result rest ih =>
    unfold appendCalls at h
    rw [succeeds_ofExcept_bind] at h
    obtain ⟨invocation, rfl, h⟩ := h
    rw [succeeds_ofExcept_bind] at h
    obtain ⟨arguments, harguments, h⟩ := h
    rw [succeeds_get_bind, succeeds_bind] at h
    obtain ⟨⟨⟩, u, hadd, h⟩ := h
    obtain ⟨store, happend, rfl⟩ := append_ok hadd
    have hcall := Scopes.Adds.call hreceiver (hsub _ (List.mem_cons_self)) harguments
    refine .head (.add s.log hcall happend) (ih hreceiver ?_ h)
    exact fun result hresult => hsub result (List.mem_cons_of_mem _ hresult)

theorem applyCalls_ok {name chain : String} (h : Succeeds (applyCalls name chain) s () t) :
    Relation.ReflTransGen (fun s t => Scopes.Stays s (.methodChain name chain) t) s t := by
  unfold applyCalls at h
  rw [look_bind] at h
  obtain ⟨receiver, hreceiver, h⟩ := h
  exact appendCalls_ok hreceiver (fun _ hresult => hresult) h

theorem enterBound_ok {block : BlockId} {bound : List (BoundParameter × Value)} {message : String}
    (h : Succeeds (do let _ ← enter block; bindAll bound; debug message) s () t) :
    ∃ log, t =
      { s.descend block .block log with
        current :=
          ⟨s.current.path ++ [s.current.children], block,
            (bound.map fun p => (p.1.name, p.2)).reverse, [], 0, .block⟩ } := by
  rw [succeeds_bind] at h
  obtain ⟨path, u, henter, h⟩ := h
  obtain ⟨log, rfl⟩ := enter_ok henter
  rw [succeeds_bind] at h
  obtain ⟨⟨⟩, u, hbind, h⟩ := h
  obtain ⟨log', rfl⟩ := bindAll_ok hbind
  obtain ⟨log'', rfl⟩ := note_ok h
  exact ⟨log'', by simp [Scopes.descend]⟩

/-- The name of a routine is bound in the scope around it, before its own scope is opened. -/
theorem applyRoutine_ok {name : Option String} {parameters : List Parameter}
    {returns : Option TypeName} (h : Succeeds (applyRoutine name parameters returns) s () t) :
    ∃ o log, s.Opening (.routine name parameters returns) o ∧ t = s.opened o log := by
  unfold applyRoutine at h
  rw [succeeds_ofExcept_bind] at h
  obtain ⟨declared, hdeclared, h⟩ := h
  rw [succeeds_ofExcept_bind] at h
  obtain ⟨bound, hbound, h⟩ := h
  rw [succeeds_edit_bind] at h
  obtain ⟨block, store, hnew, h⟩ := h
  obtain ⟨rfl, rfl⟩ := Edit.newRoutine_ok hnew
  cases name with
  | none =>
    obtain ⟨log, rfl⟩ := enterBound_ok h
    exact ⟨_, log, .routine hdeclared hbound, rfl⟩
  | some name =>
    simp only [declareRoutine, succeeds_modify_bind] at h
    obtain ⟨log, rfl⟩ := enterBound_ok h
    exact ⟨_, log, .routine hdeclared hbound, rfl⟩

theorem applyReturn_ok {values : List Expression} (h : Succeeds (applyReturn values) s () t) :
    s.Stays (.giveBack values) t := by
  unfold applyReturn at h
  rw [succeeds_get_bind, succeeds_ofExcept_bind] at h
  obtain ⟨given, hgiven, h⟩ := h
  obtain ⟨store, happend, rfl⟩ := append_ok h
  exact .add s.log (.giveBack hgiven) happend

theorem applyCondition_ok {branch : Branch} {value : Option Expression}
    (h : Succeeds (applyCondition branch value) s () t) :
    ∃ o log, s.Opening (.condition branch value) o ∧ t = s.opened o log := by
  unfold applyCondition at h
  rw [look_bind] at h
  obtain ⟨test, htest, h⟩ := h
  have hrest : (branch ≠ .ifTrue → s.followsBranch = .ok true) ∧
      Succeeds (do let block ← edit (Edit.newCondition branch test); let _ ← enter block) s () t := by
    split_ifs at h with hbranch
    · rw [look_bind] at h
      obtain ⟨follows, hfollows, h⟩ := h
      cases follows with
      | false => exact absurd h (succeeds_throw_bind _ _ _ _ _)
      | true => exact ⟨fun _ => hfollows, h⟩
    · exact ⟨fun hne => absurd hne hbranch, h⟩
  obtain ⟨hfollows, h⟩ := hrest
  rw [succeeds_edit_bind] at h
  obtain ⟨block, store, hnew, h⟩ := h
  obtain ⟨condition, hcondition, rfl, rfl⟩ := Edit.newCondition_ok hnew
  rw [succeeds_bind] at h
  obtain ⟨path, u, henter, h⟩ := h
  obtain ⟨log, rfl⟩ := enter_ok henter
  obtain ⟨_, rfl⟩ := (succeeds_pure _ _ _ _).mp h
  exact ⟨_, log, .condition htest hfollows hcondition, rfl⟩

theorem applyLoop_ok {element iterable : String} (h : Succeeds (applyLoop element iterable) s () t) :
    ∃ o log, s.Opening (.loop element iterable) o ∧ t = s.opened o log := by
  unfold applyLoop at h
  rw [look_bind] at h
  obtain ⟨collection, hcollection, h⟩ := h
  split_ifs at h with hkind
  · rw [succeeds_edit_bind] at h
    obtain ⟨block, store, hnew, h⟩ := h
    obtain ⟨looped, _, hlooped, rfl, rfl⟩ := Edit.newMapLoop_ok hnew
    rw [succeeds_bind] at h
    obtain ⟨path, u, henter, h⟩ := h
    obtain ⟨log, rfl⟩ := enter_ok henter
    obtain ⟨log', rfl⟩ := bind_ok h
    exact ⟨_, log', .mapLoop hcollection hkind hlooped, rfl⟩
  · rw [succeeds_edit_bind] at h
    obtain ⟨⟨block, item⟩, store, hnew, h⟩ := h
    obtain ⟨looped, counter, length, counted, harray, hlooped, hcounter, hlength, hcounted, hitem,
      rfl, rfl⟩ := Edit.newArrayLoop_ok hnew
    simp only at h
    rw [succeeds_bind] at h
    obtain ⟨path, u, henter, h⟩ := h
    obtain ⟨log, rfl⟩ := enter_ok henter
    obtain ⟨log', rfl⟩ := bind_ok h
    exact ⟨_, log', .arrayLoop hcollection harray hlooped hcounter hlength hcounted hitem, rfl⟩

theorem applyTry_ok (h : Succeeds applyTry s () t) :
    ∃ o log, s.Opening .attempt o ∧ t = s.opened o log := by
  unfold applyTry at h
  rw [succeeds_edit_bind] at h
  obtain ⟨block, store, hnew, h⟩ := h
  obtain ⟨condition, hcondition, rfl, rfl⟩ := Edit.newEvaluation_ok hnew
  rw [succeeds_bind] at h
  obtain ⟨path, u, henter, h⟩ := h
  obtain ⟨log, rfl⟩ := enter_ok henter
  obtain ⟨_, rfl⟩ := (succeeds_pure _ _ _ _).mp h
  exact ⟨_, log, .attempt hcondition, rfl⟩

theorem applySignal_ok {name : String} {parameter : Option String}
    (h : Succeeds (applySignal name parameter) s () t) :
    ∃ o log, s.Opening (.signal name parameter) o ∧ t = s.opened o log := by
  unfold applySignal at h
  rw [succeeds_ofExcept_bind] at h
  obtain ⟨signal, hsignal, h⟩ := h
  rw [succeeds_edit_bind] at h
  obtain ⟨routine, store, hnew, h⟩ := h
  obtain ⟨rfl, rfl⟩ := Edit.newRoutine_ok hnew
  rw [succeeds_bind] at h
  obtain ⟨path, u, henter, h⟩ := h
  obtain ⟨log, rfl⟩ := enterHandler_ok henter
  cases parameter with
  | none =>
    obtain ⟨_, rfl⟩ := (succeeds_pure _ _ _ _).mp h
    exact ⟨_, log, .signal hsignal, rfl⟩
  | some parameter =>
    obtain ⟨log', rfl⟩ := bind_ok h
    exact ⟨_, log', .signal hsignal, rfl⟩

theorem applyPrint_ok {value : Option Expression} (h : Succeeds (applyPrint value) s () t) :
    s.Stays (.print value) t := by
  unfold applyPrint at h
  rw [look_bind] at h
  obtain ⟨message, hmessage, h⟩ := h
  obtain ⟨store, happend, rfl⟩ := append_ok h
  exact .add s.log (.print hmessage) happend

/-- An import adds to the file, whatever scope is open. -/
theorem applyImport_edits {path : String} {symbols : Option (List String)}
    (h : Succeeds (applyImport path symbols) s () t) :
    ∃ d store log, Dependency.make path symbols = .ok d ∧
      Succeeds (Edit.append s.file (.statement (.dependency d))) s.store () store ∧
      t = { s with store := store, log := log } := by
  unfold applyImport at h
  rw [succeeds_ofExcept_bind] at h
  obtain ⟨d, hd, h⟩ := h
  unfold importModule at h
  obtain ⟨log, h⟩ := debug_bind h
  rw [succeeds_get_bind, succeeds_edit] at h
  obtain ⟨store, happend, rfl⟩ := h
  exact ⟨d, store, log, hd, happend, rfl⟩

theorem applyImport_ok {path : String} {symbols : Option (List String)}
    (h : Succeeds (applyImport path symbols) s () t) : s.Stays (.importModule path symbols) t := by
  obtain ⟨d, store, log, hd, happend, rfl⟩ := applyImport_edits h
  exact .hoist log hd happend

theorem applyPackage_ok {path : String} (h : Succeeds (applyPackage path) s () t) :
    s.Stays (.package path) t := by
  unfold applyPackage at h
  rw [succeeds_ofExcept_bind] at h
  obtain ⟨module, hmodule, h⟩ := h
  unfold setPackage at h
  rw [succeeds_get_bind, succeeds_edit] at h
  obtain ⟨store, happend, rfl⟩ := h
  exact .package s.log hmodule happend

/-- Every line that is applied without a fault is a move of the open scopes. -/
theorem apply_ok {c : Construct} (h : Succeeds (apply c) s () t) : s.Applied c t := by
  have hopened : c.opens = true → (∃ o log, s.Opening c o ∧ t = s.opened o log) →
      s.Applied c t := by
    rintro hopens ⟨o, log, hopening, rfl⟩
    exact .opens log hopens hopening
  have hstays (hopens : c.opens = false) (hcloses : c.closes = false) (hmove : s.Stays c t) :
      s.Applied c t := .stays hopens hcloses (.single hmove)
  cases c with
  | blank =>
    obtain ⟨store, happend, rfl⟩ := append_ok h
    exact hstays rfl rfl (.add s.log .blank happend)
  | comment =>
    obtain ⟨_, rfl⟩ := (succeeds_pure _ _ _ _).mp h
    exact .stays rfl rfl .refl
  | openScope =>
    unfold apply at h
    rw [succeeds_bind] at h
    obtain ⟨path, u, hpush, h⟩ := h
    obtain ⟨_, rfl⟩ := (succeeds_pure _ _ _ _).mp h
    exact hopened rfl (push_ok hpush)
  | closeScope =>
    unfold apply at h
    rw [succeeds_bind] at h
    obtain ⟨path, u, hpop, h⟩ := h
    obtain ⟨_, rfl⟩ := (succeeds_pure _ _ _ _).mp h
    exact .closes rfl (pop_ok hpop)
  | importModule path symbols => exact hstays rfl rfl (applyImport_ok h)
  | package path => exact hstays rfl rfl (applyPackage_ok h)
  | declare type name value => exact hstays rfl rfl (applyDeclaration_ok h)
  | assign name value => exact hstays rfl rfl (applyAssignment_ok h)
  | methodChain receiver chain => exact .stays rfl rfl (applyCalls_ok h)
  | routine name parameters returns => exact hopened rfl (applyRoutine_ok h)
  | giveBack values => exact hstays rfl rfl (applyReturn_ok h)
  | condition branch value => exact hopened rfl (applyCondition_ok h)
  | loop element iterable => exact hopened rfl (applyLoop_ok h)
  | attempt => exact hopened rfl (applyTry_ok h)
  | signal name parameter => exact hopened rfl (applySignal_ok h)
  | print value => exact hstays rfl rfl (applyPrint_ok h)
  | exit code =>
    obtain ⟨store, happend, rfl⟩ := append_ok h
    exact hstays rfl rfl (.add s.log (.exit code) happend)

end Session

end LineScript
