import LineScript.Scope
import Mathlib.Data.List.Forall2
import Mathlib.Logic.Relation
import Mathlib.Tactic.ByContra
import Mathlib.Tactic.SplitIfs

/-!
# Successful computations

Edits of the store and operations on the open scopes are computations on a state that may end in
a fault. `Succeeds` relates the state before to the result and the state after; the lemmas take a
successful computation apart into its successful steps.
-/
namespace LineScript

section Success

variable {σ α β : Type}

/-- The computation ends without a fault, with this result and in this state. -/
def Succeeds (m : ExceptT Fault (StateM σ) α) (s : σ) (a : α) (t : σ) : Prop :=
  m.run s = (.ok a, t)

theorem run_bind (m : ExceptT Fault (StateM σ) α) (f : α → ExceptT Fault (StateM σ) β) (s : σ) :
    (m >>= f).run s =
      match m.run s with
      | (.ok a, t) => (f a).run t
      | (.error fault, t) => (.error fault, t) := by
  change (match m.run s with | (result, t) => (ExceptT.bindCont f result).run t) = _
  cases m.run s with
  | mk result t => cases result <;> rfl

theorem succeeds_bind (m : ExceptT Fault (StateM σ) α) (f : α → ExceptT Fault (StateM σ) β)
    (s u : σ) (b : β) :
    Succeeds (m >>= f) s b u ↔ ∃ a t, Succeeds m s a t ∧ Succeeds (f a) t b u := by
  unfold Succeeds
  rw [run_bind]
  constructor
  · intro h
    cases hm : m.run s with
    | mk result t =>
      rw [hm] at h
      cases result with
      | error fault => cases congrArg Prod.fst h
      | ok a => exact ⟨a, t, rfl, h⟩
  · rintro ⟨a, t, hm, hf⟩
    rw [hm]
    exact hf

theorem succeeds_ok_iff (a b : α) (s t : σ) :
    ((Except.ok a, s) : Except Fault α × σ) = (.ok b, t) ↔ a = b ∧ s = t := by
  rw [Prod.mk.injEq, Except.ok.injEq]

@[simp] theorem succeeds_pure (a b : α) (s t : σ) : Succeeds (pure a) s b t ↔ a = b ∧ s = t :=
  succeeds_ok_iff a b s t

@[simp] theorem succeeds_throw (fault : Fault) (s t : σ) (a : α) :
    ¬ Succeeds (throw fault) s a t := by
  intro h
  cases congrArg Prod.fst h

@[simp] theorem succeeds_get (s t u : σ) : Succeeds get s t u ↔ s = t ∧ s = u :=
  succeeds_ok_iff s t s u

@[simp] theorem succeeds_set (s t u : σ) (a : PUnit) : Succeeds (set t) s a u ↔ t = u := by
  change ((Except.ok PUnit.unit, t) : Except Fault PUnit × σ) = (.ok a, u) ↔ _
  rw [succeeds_ok_iff]
  exact and_iff_right rfl

@[simp] theorem succeeds_modify (f : σ → σ) (s t : σ) (a : PUnit) :
    Succeeds (modify f) s a t ↔ f s = t := by
  change ((Except.ok PUnit.unit, f s) : Except Fault PUnit × σ) = (.ok a, t) ↔ _
  rw [succeeds_ok_iff]
  exact and_iff_right rfl

theorem succeeds_pure_bind (a : α) (f : α → ExceptT Fault (StateM σ) β) (s u : σ) (b : β) :
    Succeeds (pure a >>= f) s b u ↔ Succeeds (f a) s b u := by
  simp only [succeeds_bind, succeeds_pure, and_assoc, exists_eq_left', exists_and_left]

theorem succeeds_get_bind (f : σ → ExceptT Fault (StateM σ) β) (s u : σ) (b : β) :
    Succeeds (get >>= f) s b u ↔ Succeeds (f s) s b u := by
  simp only [succeeds_bind, succeeds_get, and_assoc, exists_eq_left', exists_and_left]

theorem succeeds_modify_bind (g : σ → σ) (f : PUnit → ExceptT Fault (StateM σ) β) (s u : σ)
    (b : β) : Succeeds (modify g >>= f) s b u ↔ Succeeds (f ⟨⟩) (g s) b u := by
  simp only [succeeds_bind, succeeds_modify, exists_eq_left']
  exact ⟨fun ⟨_, h⟩ => h, fun h => ⟨_, h⟩⟩

theorem succeeds_set_bind (s' : σ) (f : PUnit → ExceptT Fault (StateM σ) β) (s u : σ) (b : β) :
    Succeeds (set s' >>= f) s b u ↔ Succeeds (f ⟨⟩) s' b u := by
  simp only [succeeds_bind, succeeds_set, exists_eq_left']
  exact ⟨fun ⟨_, h⟩ => h, fun h => ⟨_, h⟩⟩

theorem succeeds_throw_bind (fault : Fault) (f : α → ExceptT Fault (StateM σ) β) (s u : σ)
    (b : β) : ¬ Succeeds (throw fault >>= f) s b u := by
  simp only [succeeds_bind, succeeds_throw, false_and, exists_false, not_false_eq_true]

end Success

section Except

variable {ε α β : Type}

theorem except_bind_ok (x : Except ε α) (f : α → Except ε β) (b : β) :
    (x >>= f) = .ok b ↔ ∃ a, x = .ok a ∧ f a = .ok b := by
  cases x with
  | error fault => simp [bind, Except.bind]
  | ok a => simp [bind, Except.bind]

theorem except_pure_ok (a b : α) : (pure a : Except ε α) = .ok b ↔ a = b :=
  Except.ok.injEq a b ▸ Iff.rfl

theorem except_map_ok (x : Except Fault α) (f : α → β) (b : β) :
    x.map f = .ok b ↔ ∃ a, x = .ok a ∧ f a = b := by
  cases x <;> simp [Except.map]

/-- A check that throws has passed. -/
theorem except_guard_ok {c : Prop} [Decidable c] (thrown : ε) (f : Unit → Except ε α)
    (m : Except ε α) (a : α) :
    (if c then throw thrown >>= f else m) = .ok a ↔ ¬ c ∧ m = .ok a := by
  split_ifs with h
  · refine ⟨fun hthrown => ?_, fun hpassed => absurd h hpassed.1⟩
    cases hthrown
  · exact (and_iff_right h).symm

theorem except_toOption_eq_some {x : Except ε α} {a : α} (h : x.toOption = some a) :
    x = .ok a := by
  cases x with
  | error fault => cases h
  | ok b => rw [Option.some.inj h]

theorem except_mapM_ok (f : α → Except ε β) (as : List α) (bs : List β) :
    as.mapM f = .ok bs ↔ List.Forall₂ (fun a b => f a = .ok b) as bs := by
  induction as generalizing bs with
  | nil =>
    rw [List.mapM_nil, except_pure_ok, List.forall₂_nil_left_iff]
    exact eq_comm
  | cons a as ih =>
    rw [List.mapM_cons, List.forall₂_cons_left_iff, except_bind_ok]
    apply exists_congr
    intro b
    simp only [except_bind_ok, except_pure_ok, ih]
    constructor
    · rintro ⟨hb, rest, hrest, rfl⟩
      exact ⟨rest, hb, hrest, rfl⟩
    · rintro ⟨rest, hb, hrest, rfl⟩
      exact ⟨hb, rest, hrest, rfl⟩

theorem except_mapM_congr {f g : α → Except Fault β} {as : List α} (h : ∀ a ∈ as, f a = g a) :
    as.mapM f = as.mapM g := by
  induction as with
  | nil => rfl
  | cons a as ih =>
    rw [List.mapM_cons, List.mapM_cons, h a List.mem_cons_self,
      ih fun b hb => h b (List.mem_cons_of_mem _ hb)]

theorem exists_of_mem_mapM {f : α → Except Fault β} {as : List α} {bs : List β}
    (h : as.mapM f = .ok bs) {b : β} (hb : b ∈ bs) : ∃ a ∈ as, f a = .ok b := by
  rw [except_mapM_ok] at h
  induction h with
  | nil => cases hb
  | @cons a b' as bs hfirst _ ih =>
    rcases List.mem_cons.mp hb with rfl | hb
    · exact ⟨a, List.mem_cons_self, hfirst⟩
    · obtain ⟨a', ha', hf⟩ := ih hb
      exact ⟨a', List.mem_cons_of_mem _ ha', hf⟩

theorem mem_of_mapM {f : α → Except Fault β} {as : List α} {bs : List β} (h : as.mapM f = .ok bs)
    {a : α} (ha : a ∈ as) {b : β} (hb : f a = .ok b) : b ∈ bs := by
  rw [except_mapM_ok] at h
  induction h with
  | nil => cases ha
  | cons hfirst _ ih =>
    rcases List.mem_cons.mp ha with rfl | ha
    · rw [Except.ok.inj (hb.symm.trans hfirst)]
      exact List.mem_cons_self
    · exact List.mem_cons_of_mem _ (ih ha)

end Except

@[simp] theorem Edit.succeeds_ofExcept {α : Type} (result : Except Fault α) (s t : Store) (a : α) :
    Succeeds (Edit.ofExcept result) s a t ↔ result = .ok a ∧ s = t := by
  cases result with
  | error fault => simp [Edit.ofExcept]
  | ok b => simp [Edit.ofExcept]

@[simp] theorem Session.succeeds_ofExcept {α : Type} (result : Except Fault α) (s t : Scopes)
    (a : α) : Succeeds (Session.ofExcept result) s a t ↔ result = .ok a ∧ s = t := by
  cases result with
  | error fault => simp [Session.ofExcept]
  | ok b => simp [Session.ofExcept]

theorem Store.block_ok (s : Store) (id : BlockId) (block : Block) :
    s.block id = .ok block ↔ s.get? id = some block := by
  unfold Store.block
  cases s.get? id <;> simp

@[simp] theorem Edit.succeeds_requireBlock (id : BlockId) (s t : Store) (block : Block) :
    Succeeds (Edit.requireBlock id) s block t ↔ s.get? id = some block ∧ s = t := by
  unfold Edit.requireBlock
  rw [succeeds_get_bind, ← Store.block_ok]
  cases s.block id <;> simp

theorem Edit.succeeds_requireBlock_bind {α : Type} (id : BlockId) (f : Block → Edit α)
    (s t : Store) (a : α) :
    Succeeds (Edit.requireBlock id >>= f) s a t ↔
      ∃ block, s.get? id = some block ∧ Succeeds (f block) s a t := by
  simp only [succeeds_bind, Edit.succeeds_requireBlock, and_assoc, exists_eq_left',
    exists_and_left]

theorem Edit.succeeds_ofExcept_bind {α β : Type} (result : Except Fault α) (f : α → Edit β)
    (s t : Store) (b : β) :
    Succeeds (Edit.ofExcept result >>= f) s b t ↔
      ∃ a, result = .ok a ∧ Succeeds (f a) s b t := by
  simp only [succeeds_bind, Edit.succeeds_ofExcept, and_assoc, exists_eq_left', exists_and_left]

theorem Session.succeeds_ofExcept_bind {α β : Type} (result : Except Fault α)
    (f : α → Session β) (s t : Scopes) (b : β) :
    Succeeds (Session.ofExcept result >>= f) s b t ↔
      ∃ a, result = .ok a ∧ Succeeds (f a) s b t := by
  simp only [succeeds_bind, Session.succeeds_ofExcept, and_assoc, exists_eq_left',
    exists_and_left]

/-- An edit of the store leaves the scopes themselves as they are. -/
theorem Session.succeeds_edit {α : Type} (e : Edit α) (s t : Scopes) (a : α) :
    Succeeds (Session.edit e) s a t ↔
      ∃ store, Succeeds e s.store a store ∧ t = { s with store := store } := by
  unfold Session.edit
  rw [succeeds_get_bind]
  change Succeeds (set { s with store := (e.run s.store).2 } >>= fun _ =>
    Session.ofExcept (e.run s.store).1) s a t ↔ _
  rw [succeeds_set_bind, Session.succeeds_ofExcept]
  constructor
  · intro h
    obtain ⟨hok, rfl⟩ := h
    exact ⟨(e.run s.store).2, Prod.ext hok rfl, rfl⟩
  · rintro ⟨store, he, rfl⟩
    have hok : (e.run s.store).1 = .ok a := congrArg Prod.fst he
    have hstore : (e.run s.store).2 = store := congrArg Prod.snd he
    exact ⟨hok, congrArg (fun store => { s with store := store }) hstore⟩

theorem Session.succeeds_edit_bind {α β : Type} (e : Edit α) (f : α → Session β) (s t : Scopes)
    (b : β) :
    Succeeds (Session.edit e >>= f) s b t ↔
      ∃ a store, Succeeds e s.store a store ∧ Succeeds (f a) { s with store := store } b t := by
  simp only [succeeds_bind, Session.succeeds_edit]
  constructor
  · rintro ⟨a, _, ⟨store, he, rfl⟩, h⟩
    exact ⟨a, store, he, h⟩
  · rintro ⟨a, store, he, h⟩
    exact ⟨a, _, ⟨store, he, rfl⟩, h⟩

end LineScript
