import LineScript.Line.Grammar
import Mathlib.Data.List.Forall2

/-!
# Phrases that read alike

`Phrase.Parallel` compares two phrases on every text: both are there or neither is, they take the
same characters and miss the same places, and what they give is related. It goes through the ways of
putting phrases together, one lemma for each.
-/
namespace LineScript.Line.Phrase

variable {α β γ δ : Type} {R : α → β → Prop} {S : γ → δ → Prop} {p : Phrase α} {q : Phrase β}

/-- On every text both phrases do the same, and what they give is related. -/
def Parallel (R : α → β → Prop) (p : Phrase α) (q : Phrase β) : Prop :=
  ∀ s, (p s).missed = (q s).missed ∧
    Option.Rel (fun a b => R a.1 b.1 ∧ a.2 = b.2) (p s).found (q s).found

namespace Parallel

theorem absent : Parallel R absent absent :=
  fun _ => ⟨rfl, .none⟩

theorem done {a : α} {b : β} (h : R a b) : Parallel R (pure a) (pure b) :=
  fun _ => ⟨rfl, .some ⟨h, rfl⟩⟩

/-- Both attempts find something, with the same rest, or none does. -/
theorem cases (h : Parallel R p q) (s : List Char) :
    (∃ missed, p s = ⟨none, missed⟩ ∧ q s = ⟨none, missed⟩) ∨
      ∃ a b rest missed, p s = ⟨some (a, rest), missed⟩ ∧ q s = ⟨some (b, rest), missed⟩ ∧
        R a b := by
  obtain ⟨hmissed, hfound⟩ := h s
  cases hp : p s with
  | mk found missed =>
    cases hq : q s with
    | mk found' missed' =>
      rw [hp, hq] at hmissed hfound
      obtain rfl : missed = missed' := hmissed
      cases hfound with
      | none => exact Or.inl ⟨missed, rfl, rfl⟩
      | @some a b hread =>
        obtain ⟨a, rest⟩ := a
        obtain ⟨b, rest'⟩ := b
        obtain ⟨hab, rfl⟩ := hread
        exact Or.inr ⟨a, b, rest, missed, rfl, rfl, hab⟩

theorem mono {R' : α → β → Prop} (h : Parallel R p q) (himp : ∀ a b, R a b → R' a b) :
    Parallel R' p q := by
  intro s
  rcases h.cases s with ⟨missed, hp, hq⟩ | ⟨a, b, rest, missed, hp, hq, hab⟩
  · rw [hp, hq]
    exact ⟨rfl, .none⟩
  · rw [hp, hq]
    exact ⟨rfl, .some ⟨himp a b hab, rfl⟩⟩

theorem bind {f : α → Phrase γ} {g : β → Phrase δ} (h : Parallel R p q)
    (hnext : ∀ a b, R a b → Parallel S (f a) (g b)) : Parallel S (p >>= f) (q >>= g) := by
  intro s
  change (Phrase.andThen p f s).missed = (Phrase.andThen q g s).missed ∧
    Option.Rel _ (Phrase.andThen p f s).found (Phrase.andThen q g s).found
  unfold Phrase.andThen
  rcases h.cases s with ⟨missed, hp, hq⟩ | ⟨a, b, rest, missed, hp, hq, hab⟩
  · rw [hp, hq]
    exact ⟨rfl, .none⟩
  · obtain ⟨hmissed, hfound⟩ := hnext a b hab rest
    rw [hp, hq]
    exact ⟨congrArg (further missed) hmissed, hfound⟩

theorem map {f : α → γ} {g : β → δ} (h : Parallel R p q) (himp : ∀ a b, R a b → S (f a) (g b)) :
    Parallel S (f <$> p) (g <$> q) :=
  h.bind fun a b hab => done (himp a b hab)

theorem symm (h : Parallel R p q) : Parallel (fun b a => R a b) q p := by
  intro s
  rcases h.cases s with ⟨missed, hp, hq⟩ | ⟨a, b, rest, missed, hp, hq, hab⟩
  · rw [hp, hq]
    exact ⟨rfl, .none⟩
  · rw [hp, hq]
    exact ⟨rfl, .some ⟨hab, rfl⟩⟩

theorem map_left {f : α → γ} {S : γ → β → Prop} (h : Parallel R p q)
    (himp : ∀ a b, R a b → S (f a) b) : Parallel S (f <$> p) q := by
  intro s
  change (Phrase.andThen p (fun a => Phrase.done (f a)) s).missed = _ ∧
    Option.Rel _ (Phrase.andThen p (fun a => Phrase.done (f a)) s).found _
  unfold Phrase.andThen
  rcases h.cases s with ⟨missed, hp, hq⟩ | ⟨a, b, rest, missed, hp, hq, hab⟩
  · rw [hp, hq]
    exact ⟨rfl, .none⟩
  · rw [hp, hq]
    exact ⟨by cases missed <;> rfl, .some ⟨himp a b hab, rfl⟩⟩

theorem map_right {g : β → δ} {S : α → δ → Prop} (h : Parallel R p q)
    (himp : ∀ a b, R a b → S a (g b)) : Parallel S p (g <$> q) :=
  (h.symm.map_left fun b a hab => himp a b hab).symm

theorem either {p' : Phrase α} {q' : Phrase β} (h : Parallel R p q) (h' : Parallel R p' q') :
    Parallel R (p <|> p') (q <|> q') := by
  intro s
  change (Phrase.either p p' s).missed = (Phrase.either q q' s).missed ∧
    Option.Rel _ (Phrase.either p p' s).found (Phrase.either q q' s).found
  unfold Phrase.either
  rcases h.cases s with ⟨missed, hp, hq⟩ | ⟨a, b, rest, missed, hp, hq, hab⟩
  · obtain ⟨hmissed, hfound⟩ := h' s
    rw [hp, hq]
    exact ⟨congrArg (further missed) hmissed, hfound⟩
  · rw [hp, hq]
    exact ⟨rfl, .some ⟨hab, rfl⟩⟩

theorem named (h : Parallel R p q) : Parallel R (named p) (named q) := by
  intro s
  unfold Phrase.named
  rcases h.cases s with ⟨missed, hp, hq⟩ | ⟨a, b, rest, missed, hp, hq, hab⟩
  · rw [hp, hq]
    exact ⟨rfl, .none⟩
  · rw [hp, hq]
    exact ⟨rfl, .some ⟨hab, rfl⟩⟩

theorem token {read : List Char → Option (α × List Char)}
    {read' : List Char → Option (β × List Char)}
    (h : ∀ s, Option.Rel (fun a b => R a.1 b.1 ∧ a.2 = b.2) (read s) (read' s)) :
    Parallel R (token read) (token read') := by
  intro s
  unfold Phrase.token
  have hs := h s
  cases hread : read s with
  | none =>
    rw [hread] at hs
    cases hread' : read' s with
    | none => exact ⟨rfl, .none⟩
    | some b =>
      rw [hread'] at hs
      cases hs
  | some a =>
    rw [hread] at hs
    cases hread' : read' s with
    | none =>
      rw [hread'] at hs
      cases hs
    | some b =>
      rw [hread'] at hs
      cases hs with
      | some hab => exact ⟨rfl, .some ⟨hab.1, congrArg skipFiller hab.2⟩⟩

theorem symbol (text : String) : Parallel (fun _ _ => True) (symbol text) (symbol text) := by
  refine token fun s => ?_
  cases dropText text.toList s with
  | none => exact .none
  | some _ => exact .some ⟨trivial, rfl⟩

theorem optional (h : Parallel R p q) :
    Parallel (Option.Rel R) (optional p) (optional q) :=
  either (h.bind fun _ _ hab => done (.some hab)) (done .none)

theorem manyWithin (h : Parallel R p q) (bound : Nat) :
    Parallel (List.Forall₂ R) (manyWithin bound p) (manyWithin bound q) := by
  induction bound with
  | zero => exact done .nil
  | succ bound ih =>
    exact either (h.bind fun _ _ hab => ih.bind fun _ _ hrest => done (.cons hab hrest))
      (done .nil)

theorem many (h : Parallel R p q) : Parallel (List.Forall₂ R) (many p) (many q) :=
  fun s => h.manyWithin (s.length + 1) s

theorem commaSeparated (h : Parallel R p q) :
    Parallel (List.Forall₂ R) (commaSeparated p) (commaSeparated q) :=
  h.bind fun _ _ hab => (many ((symbol _).bind fun _ _ _ => h)).bind fun _ _ hrest =>
    done (.cons hab hrest)

theorem entries (h : Parallel R p q) :
    Parallel (List.Forall₂ R) (entries p) (entries q) := by
  have hall : Parallel (List.Forall₂ R)
      (do
        let all ← Phrase.commaSeparated p
        let _ ← Phrase.optional (Phrase.symbol ",")
        return all)
      (do
        let all ← Phrase.commaSeparated q
        let _ ← Phrase.optional (Phrase.symbol ",")
        return all) :=
    h.commaSeparated.bind fun _ _ hall => (symbol _).optional.bind fun _ _ _ => done hall
  refine hall.optional.bind fun _ _ hfound => ?_
  cases hfound with
  | none => exact done .nil
  | some hall => exact done hall

theorem operand (h : Parallel R p q) :
    Parallel (Option.Rel R) (operand p) (operand q) := by
  have hinside : Parallel (Option.Rel R)
      (do
        Phrase.symbol "("
        let operand ← Phrase.optional p
        Phrase.symbol ")"
        return operand)
      (do
        Phrase.symbol "("
        let operand ← Phrase.optional q
        Phrase.symbol ")"
        return operand) :=
    (symbol _).bind fun _ _ _ => h.optional.bind fun _ _ hfound => (symbol _).bind fun _ _ _ =>
      done hfound
  refine (hinside.either (h.map fun _ _ hab => .some hab)).optional.bind fun _ _ hfound => ?_
  cases hfound with
  | none => exact done .none
  | some hfound => exact done hfound

end Parallel

end LineScript.Line.Phrase
