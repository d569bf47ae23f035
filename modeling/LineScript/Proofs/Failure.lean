import LineScript.Proofs.Success

/-!
# Computations that end in a fault

`Fails` says that a computation ends in a fault. A sequence fails where one of its steps does, the
steps before it having succeeded.
-/
namespace LineScript

section Failure

variable {σ α β : Type}

/-- The computation ends in this fault. -/
def Fails (m : ExceptT Fault (StateM σ) α) (s : σ) (fault : Fault) : Prop :=
  (m.run s).1 = .error fault

theorem fails_bind (m : ExceptT Fault (StateM σ) α) (f : α → ExceptT Fault (StateM σ) β) (s : σ)
    (fault : Fault) :
    Fails (m >>= f) s fault ↔
      Fails m s fault ∨ ∃ a t, Succeeds m s a t ∧ Fails (f a) t fault := by
  unfold Fails Succeeds
  rw [run_bind]
  constructor
  · intro h
    cases hm : m.run s with
    | mk result t =>
      rw [hm] at h
      cases result with
      | error other => exact Or.inl (congrArg Except.error (Except.error.inj h))
      | ok a => exact Or.inr ⟨a, t, rfl, h⟩
  · rintro (h | ⟨a, t, hm, hf⟩)
    · cases hm : m.run s with
      | mk result t =>
        rw [hm] at h
        cases result with
        | error other => exact congrArg Except.error (Except.error.inj h)
        | ok a => cases h
    · rw [hm]
      exact hf

@[simp] theorem fails_pure (a : α) (s : σ) (fault : Fault) :
    ¬ Fails (pure a : ExceptT Fault (StateM σ) α) s fault := by
  intro h
  cases h

@[simp] theorem fails_throw (thrown fault : Fault) (s : σ) :
    Fails (throw thrown : ExceptT Fault (StateM σ) α) s fault ↔ thrown = fault :=
  Except.error.injEq thrown fault ▸ Iff.rfl

@[simp] theorem fails_get (s : σ) (fault : Fault) :
    ¬ Fails (get : ExceptT Fault (StateM σ) σ) s fault := by
  intro h
  cases h

@[simp] theorem fails_modify (f : σ → σ) (s : σ) (fault : Fault) :
    ¬ Fails (modify f : ExceptT Fault (StateM σ) PUnit) s fault := by
  intro h
  cases h

theorem fails_get_bind (f : σ → ExceptT Fault (StateM σ) β) (s : σ) (fault : Fault) :
    Fails (get >>= f) s fault ↔ Fails (f s) s fault := by
  simp only [fails_bind, fails_get, succeeds_get, false_or, and_assoc, exists_eq_left',
    exists_and_left]

theorem fails_set_bind (t : σ) (f : PUnit → ExceptT Fault (StateM σ) β) (s : σ) (fault : Fault) :
    Fails (set t >>= f) s fault ↔ Fails (f ⟨⟩) t fault :=
  Iff.rfl

end Failure

theorem except_bind_error {α β : Type} (x : Except Fault α) (f : α → Except Fault β)
    (fault : Fault) :
    (x >>= f) = .error fault ↔ x = .error fault ∨ ∃ a, x = .ok a ∧ f a = .error fault := by
  cases x with
  | error other => simp [bind, Except.bind]
  | ok a => simp [bind, Except.bind]

@[simp] theorem Session.fails_ofExcept {α : Type} (result : Except Fault α) (s : Scopes)
    (fault : Fault) : Fails (Session.ofExcept result) s fault ↔ result = .error fault := by
  cases result with
  | error other => simp [Session.ofExcept]
  | ok a => simp [Session.ofExcept]

theorem Session.fails_edit {α : Type} (e : Edit α) (s : Scopes) (fault : Fault) :
    Fails (Session.edit e) s fault ↔ Fails e s.store fault := by
  unfold Session.edit
  rw [fails_get_bind]
  change Fails (set { s with store := (e.run s.store).2 } >>= fun _ =>
    Session.ofExcept (e.run s.store).1) s fault ↔ _
  rw [fails_set_bind, Session.fails_ofExcept]
  rfl

theorem Edit.fails_requireBlock (id : BlockId) (s : Store) (fault : Fault) :
    Fails (Edit.requireBlock id) s fault ↔ s.get? id = none ∧ fault = .unknownBlock id := by
  unfold Edit.requireBlock
  rw [fails_get_bind, Store.block]
  cases s.get? id with
  | none => simp [eq_comm]
  | some block => simp

end LineScript
