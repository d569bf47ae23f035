import LineScript.Line.Classify
import LineScript.Proofs.Written

/-!
# What phrases give

`Phrase.Gives` says that whatever a phrase reads from characters of some sort has a property, and
that only such characters are left. It goes through the ways of putting phrases together, so that a
property of words reaches the constructs made from them.
-/
namespace LineScript

namespace Line

theorem mem_of_skipFiller {s : List Char} {c : Char} (h : c ∈ skipFiller s) : c ∈ s := by
  unfold skipFiller at h
  split at h
  · cases h
  · exact (List.dropWhile_sublist isSpace).subset h

namespace Phrase

variable {α β : Type} {ok : Char → Prop} {p q : Phrase α} {P Q : α → Prop}

/-- Whatever the phrase reads from such characters has the property, and leaves only such
characters. -/
def Gives (ok : Char → Prop) (p : Phrase α) (Q : α → Prop) : Prop :=
  ∀ s, (∀ c ∈ s, ok c) → ∀ a rest, (p s).found = some (a, rest) → Q a ∧ ∀ c ∈ rest, ok c

namespace Gives

theorem mono (hp : p.Gives ok P) (h : ∀ a, P a → Q a) : p.Gives ok Q :=
  fun s hs a rest hfound => (hp s hs a rest hfound).imp_left (h a)

theorem absent : (absent : Phrase α).Gives ok Q := by
  intro s _ a rest h
  cases h

theorem done {a : α} (h : Q a) : (pure a : Phrase α).Gives ok Q := by
  intro s hs a' rest hfound
  obtain ⟨rfl, rfl⟩ := Prod.mk.inj (Option.some.inj hfound)
  exact ⟨h, hs⟩

theorem andThen {f : α → Phrase β} {R : β → Prop} (hp : p.Gives ok P)
    (hf : ∀ a, P a → (f a).Gives ok R) : (p >>= f).Gives ok R := by
  intro s hs b rest h
  change (Phrase.andThen p f s).found = _ at h
  rw [Phrase.andThen] at h
  cases hattempt : p s with
  | mk found missed =>
    rw [hattempt] at h
    cases found with
    | none => cases h
    | some read =>
      obtain ⟨a, left⟩ := read
      obtain ⟨ha, hleft⟩ := hp s hs a left (by rw [hattempt])
      exact hf a ha left hleft b rest h

theorem map {f : α → β} {R : β → Prop} (hp : p.Gives ok fun a => R (f a)) :
    (f <$> p).Gives ok R :=
  andThen hp fun _ ha => done ha

theorem either (hp : p.Gives ok Q) (hq : q.Gives ok Q) : (p <|> q).Gives ok Q := by
  intro s hs a rest h
  change (Phrase.either p q s).found = _ at h
  rw [Phrase.either] at h
  cases hattempt : p s with
  | mk found missed =>
    rw [hattempt] at h
    cases found with
    | none => exact hq s hs a rest h
    | some read => exact hp s hs a rest (by rw [hattempt]; exact h)

theorem named (hp : p.Gives ok Q) : (named p).Gives ok Q := by
  intro s hs a rest h
  rw [Phrase.named] at h
  cases hattempt : p s with
  | mk found missed =>
    rw [hattempt] at h
    cases found with
    | none => cases h
    | some read => exact hp s hs a rest (by rw [hattempt]; exact h)

theorem token {read : List Char → Option (α × List Char)}
    (h : ∀ s, (∀ c ∈ s, ok c) → ∀ a rest, read s = some (a, rest) → Q a ∧ ∀ c ∈ rest, ok c) :
    (token read).Gives ok Q := by
  intro s hs a rest hfound
  rw [Phrase.token] at hfound
  cases hread : read s with
  | none =>
    rw [hread] at hfound
    cases hfound
  | some found =>
    obtain ⟨b, left⟩ := found
    rw [hread] at hfound
    obtain ⟨rfl, rfl⟩ := Prod.mk.inj (Option.some.inj hfound)
    exact (h s hs b left hread).imp_right fun hleft c hc => hleft c (mem_of_skipFiller hc)

theorem optional (hp : p.Gives ok Q) : (optional p).Gives ok fun found => ∀ a ∈ found, Q a := by
  refine either (andThen hp fun a ha => done ?_) (done (by simp))
  rintro _ ⟨rfl⟩
  exact ha

theorem manyWithin (hp : p.Gives ok Q) (bound : Nat) :
    (manyWithin bound p).Gives ok fun all => ∀ a ∈ all, Q a := by
  induction bound with
  | zero => exact done (by simp)
  | succ bound ih =>
    exact either
      (andThen hp fun a ha => andThen ih fun rest hrest =>
        done (List.forall_mem_cons.mpr ⟨ha, hrest⟩))
      (done (by simp))

theorem many (hp : p.Gives ok Q) : (many p).Gives ok fun all => ∀ a ∈ all, Q a :=
  fun s => hp.manyWithin (s.length + 1) s

end Gives

end Phrase

open Phrase

variable {ok : Char → Prop}

theorem append_of_dropText {text s rest : List Char} {u : Unit}
    (h : dropText text s = some (u, rest)) : s = text ++ rest := by
  induction text generalizing s with
  | nil => exact (Prod.mk.inj (Option.some.inj h)).2
  | cons c text ih =>
    cases s with
    | nil => cases h
    | cons d s =>
      rw [dropText] at h
      split_ifs at h with hcd
      rw [hcd, List.cons_append, ← ih h]

theorem append_of_splitKeyword {text s rest : List Char} {u : Unit}
    (h : splitKeyword text s = some (u, rest)) : s = text ++ rest := by
  unfold splitKeyword at h
  split at h
  · rename_i left hdrop
    split_ifs at h
    rw [append_of_dropText hdrop, (Prod.mk.inj (Option.some.inj h)).2]
  · cases h

theorem symbol_gives (text : String) : (symbol text).Gives ok fun _ => True := by
  refine .token fun s hs _ rest h => ⟨trivial, fun c hc => hs c ?_⟩
  rw [append_of_dropText h]
  exact List.mem_append_right _ hc

theorem keyword_gives (text : String) : (keyword text).Gives ok fun _ => True := by
  refine .named (.token fun s hs _ rest h => ⟨trivial, fun c hc => hs c ?_⟩)
  rw [append_of_splitKeyword h]
  exact List.mem_append_right _ hc

/-- A word is made of such characters itself. -/
theorem word_gives {read : List Char → Option (List Char × List Char)} {P : List Char → Prop}
    (h : ∀ s chars rest, read s = some (chars, rest) → s = chars ++ rest ∧ P chars) :
    (word read).Gives ok fun text => P text.toList ∧ ∀ c ∈ text.toList, ok c := by
  refine .named (.token fun s hs text rest hread => ?_)
  obtain ⟨⟨chars, left⟩, hsplit, heq⟩ := Option.map_eq_some_iff.mp hread
  obtain ⟨rfl, rfl⟩ := Prod.mk.inj heq
  obtain ⟨rfl, hchars⟩ := h s chars left hsplit
  rw [String.toList_ofList]
  rw [List.forall_mem_append] at hs
  exact ⟨⟨hchars, hs.1⟩, hs.2⟩

theorem name_gives : name.Gives ok fun text => Text.isName text.toList = true :=
  (word_gives fun _ _ _ h => ⟨Text.append_of_splitName h, Text.isName_of_splitName h⟩).mono
    fun _ h => h.1

theorem commaSeparated_gives {α : Type} {p : Phrase α} {Q : α → Prop} (hp : p.Gives ok Q) :
    (commaSeparated p).Gives ok fun all => ∀ a ∈ all, Q a :=
  .andThen hp fun _ ha => .andThen (.many (.andThen (symbol_gives _) fun _ _ => hp)) fun _ hrest =>
    .done (List.forall_mem_cons.mpr ⟨ha, hrest⟩)

end Line

end LineScript
