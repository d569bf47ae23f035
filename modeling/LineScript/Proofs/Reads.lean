import LineScript.Line.Classify
import LineScript.Proofs.Written

/-!
# What phrases read

`Reads` gives what a phrase takes from the front of a text and what it leaves, and `Misses` says
that the phrase is not there. Both go through the ways of putting phrases together, so that the
reading of a whole line is put together from the reading of its words.
-/
namespace LineScript.Line

namespace Phrase

variable {α β : Type} {p q : Phrase α} {f : α → Phrase β} {s mid rest : List Char} {a : α} {b : β}

def Reads (p : Phrase α) (s : List Char) (a : α) (rest : List Char) : Prop :=
  (p s).found = some (a, rest)

def Misses (p : Phrase α) (s : List Char) : Prop :=
  (p s).found = none

theorem reads_pure (a : α) (s : List Char) : (pure a : Phrase α).Reads s a s :=
  rfl

theorem found_named (p : Phrase α) (s : List Char) : (named p s).found = (p s).found := by
  rw [Phrase.named]
  cases hattempt : p s with
  | mk found missed =>
    cases found with
    | none => rfl
    | some read => rfl

namespace Reads

theorem bind_eq (hp : p.Reads s a mid) : ((p >>= f) s).found = (f a mid).found := by
  change (andThen p f s).found = _
  unfold Reads at hp
  rw [andThen]
  cases hattempt : p s with
  | mk found missed =>
    rw [hattempt] at hp
    obtain rfl : found = some (a, mid) := hp
    rfl

theorem bind (hp : p.Reads s a mid) (hf : (f a).Reads mid b rest) : (p >>= f).Reads s b rest :=
  hp.bind_eq.trans hf

theorem bind_misses (hp : p.Reads s a mid) (hf : (f a).Misses mid) : (p >>= f).Misses s :=
  hp.bind_eq.trans hf

theorem map (hp : p.Reads s a rest) (g : α → β) : (g <$> p).Reads s (g a) rest :=
  hp.bind (reads_pure _ _)

theorem either (hp : p.Reads s a rest) : (p <|> q).Reads s a rest := by
  change (Phrase.either p q s).found = _
  unfold Reads at hp
  rw [Phrase.either]
  cases hattempt : p s with
  | mk found missed =>
    rw [hattempt] at hp
    obtain rfl : found = some (a, rest) := hp
    rfl

theorem named (hp : p.Reads s a rest) : (named p).Reads s a rest :=
  (found_named p s).trans hp

theorem optional (hp : p.Reads s a rest) : (optional p).Reads s (some a) rest :=
  either (hp.bind (reads_pure _ _))

theorem token {read : List Char → Option (α × List Char)} (h : read s = some (a, rest)) :
    (token read).Reads s a (skipFiller rest) := by
  unfold Reads
  rw [Phrase.token, h]

end Reads

namespace Misses

theorem bind (hp : p.Misses s) : (p >>= f).Misses s := by
  change (andThen p f s).found = _
  unfold Misses at hp
  rw [andThen]
  cases hattempt : p s with
  | mk found missed =>
    rw [hattempt] at hp
    obtain rfl : found = none := hp
    rfl

theorem map (hp : p.Misses s) (g : α → β) : (g <$> p).Misses s :=
  hp.bind

theorem either_eq (hp : p.Misses s) : ((p <|> q) s).found = (q s).found := by
  change (Phrase.either p q s).found = _
  unfold Misses at hp
  rw [Phrase.either]
  cases hattempt : p s with
  | mk found missed =>
    rw [hattempt] at hp
    obtain rfl : found = none := hp
    rfl

theorem either_reads (hp : p.Misses s) (hq : q.Reads s a rest) : (p <|> q).Reads s a rest :=
  hp.either_eq.trans hq

theorem either (hp : p.Misses s) (hq : q.Misses s) : (p <|> q).Misses s :=
  hp.either_eq.trans hq

theorem named (hp : p.Misses s) : (named p).Misses s :=
  (found_named p s).trans hp

theorem optional (hp : p.Misses s) : (optional p).Reads s none s :=
  either_reads hp.bind (reads_pure _ _)

theorem token {read : List Char → Option (α × List Char)} (h : read s = none) :
    (token read).Misses s := by
  unfold Misses
  rw [Phrase.token, h]

end Misses

/-- The phrase is not there, or it takes all up to the rest. -/
def Stops (p : Phrase α) (s rest : List Char) : Prop :=
  p.Misses s ∨ ∃ a, p.Reads s a rest

namespace Stops

theorem either (hp : p.Stops s rest) (hq : q.Stops s rest) : (p <|> q).Stops s rest := by
  rcases hp with hp | ⟨a, hp⟩
  · rcases hq with hq | ⟨a, hq⟩
    · exact Or.inl (hp.either hq)
    · exact Or.inr ⟨a, hp.either_reads hq⟩
  · exact Or.inr ⟨a, hp.either⟩

theorem named (hp : p.Stops s rest) : (named p).Stops s rest :=
  hp.imp Misses.named fun ⟨a, hp⟩ => ⟨a, hp.named⟩

theorem map (hp : p.Stops s rest) (g : α → β) : (g <$> p).Stops s rest :=
  hp.imp (fun hp => hp.map g) fun ⟨a, hp⟩ => ⟨g a, hp.map g⟩

theorem bind_misses (hp : p.Stops s rest) (hf : ∀ a, (f a).Misses rest) : (p >>= f).Misses s := by
  rcases hp with hp | ⟨a, hp⟩
  · exact hp.bind
  · exact hp.bind_misses (hf a)

end Stops

/-- The phrase is there as often as there are values, and then no more. -/
inductive ReadsAll (p : Phrase α) : List Char → List α → List Char → Prop where
  | nil {s : List Char} (h : p.Misses s) : ReadsAll p s [] s
  | cons {s mid rest : List Char} {a : α} {all : List α} (h : p.Reads s a mid)
      (hrest : ReadsAll p mid all rest) : ReadsAll p s (a :: all) rest

theorem ReadsAll.manyWithin {all : List α} (h : p.ReadsAll s all rest) {bound : Nat}
    (hbound : all.length ≤ bound) : (manyWithin bound p).Reads s all rest := by
  induction h generalizing bound with
  | nil h =>
    cases bound with
    | zero => rfl
    | succ bound => exact Misses.either_reads h.bind (reads_pure _ _)
  | cons h _ ih =>
    cases bound with
    | zero => cases hbound
    | succ bound =>
      have hothers := ih (Nat.le_of_succ_le_succ hbound)
      exact Reads.either (h.bind (hothers.bind (reads_pure _ _)))

theorem ReadsAll.many {all : List α} (h : p.ReadsAll s all rest)
    (hbound : all.length ≤ s.length) : (many p).Reads s all rest :=
  h.manyWithin (Nat.le_succ_of_le hbound)

end Phrase

open Phrase

section Words

variable {c : Char} {s tail : List Char}

theorem skipFiller_cons (hspace : isSpace c = false) (hslash : c ≠ '/') :
    skipFiller (c :: s) = c :: s := by
  unfold skipFiller
  rw [List.dropWhile_cons_of_neg (by simp [hspace])]
  split
  · rename_i heq
    exact absurd (List.cons.inj heq).1 hslash
  · rfl

theorem skipFiller_space (s : List Char) : skipFiller (' ' :: s) = skipFiller s :=
  rfl

theorem dropText_append (text s : List Char) : dropText text (text ++ s) = some ((), s) := by
  induction text with
  | nil => rfl
  | cons c text ih => rw [List.cons_append, dropText, if_pos rfl, ih]

theorem symbol_reads (text : String) (s : List Char) :
    (symbol text).Reads (text.toList ++ s) () (skipFiller s) :=
  .token (dropText_append _ _)

theorem symbol_misses {text : String} {d : Char} {more : List Char}
    (htext : text.toList = d :: more) (h : c ≠ d) : (symbol text).Misses (c :: s) := by
  refine .token ?_
  rw [htext, dropText, if_neg (Ne.symm h)]

theorem word_reads {read : List Char → Option (List Char × List Char)} {chars rest : List Char}
    (h : read s = some (chars, rest)) :
    (word read).Reads s (String.ofList chars) (skipFiller rest) :=
  .named (.token (by rw [h, Option.map_some]))

theorem word_misses {read : List Char → Option (List Char × List Char)} (h : read s = none) :
    (word read).Misses s :=
  .named (.token (by rw [h, Option.map_none]))

/-- A name is read as a whole if no character that could be part of it follows. -/
theorem name_reads {n : String} (hname : Text.isName n.toList = true)
    (htail : ∀ c ∈ tail.head?, Text.continuesName c = false) :
    name.Reads (n.toList ++ tail) n (skipFiller tail) := by
  have h := word_reads (Text.splitName_append hname htail)
  rwa [String.ofList_toList] at h

theorem name_misses (h : Text.startsName c = false) : name.Misses (c :: s) := by
  refine word_misses ?_
  rw [Text.splitName, if_neg (by simp [h])]

/-- A keyword before a space is there only if it is the word before the space. -/
theorem splitKeyword_space {text n : List Char} (htext : ∀ c ∈ text, Text.continuesName c = true)
    (hn : ∀ c ∈ n, Text.continuesName c = true) (s : List Char) :
    splitKeyword text (n ++ ' ' :: s) = if text = n then some ((), ' ' :: s) else none := by
  unfold splitKeyword
  induction text generalizing n with
  | nil =>
    cases n with
    | nil => rfl
    | cons d n =>
      rw [List.forall_mem_cons] at hn
      rw [List.cons_append, dropText, if_neg (List.cons_ne_nil d n).symm]
      simp [hn.1]
  | cons c text ih =>
    rw [List.forall_mem_cons] at htext
    cases n with
    | nil =>
      have hc : c ≠ ' ' := by
        rintro rfl
        cases htext.1
      rw [List.nil_append, dropText, if_neg hc, if_neg (List.cons_ne_nil c text)]
    | cons d n =>
      rw [List.forall_mem_cons] at hn
      rw [List.cons_append, dropText]
      by_cases hcd : c = d
      · rw [if_pos hcd, ih htext.2 hn.2, hcd]
        simp only [List.cons.injEq, true_and]
      · rw [if_neg hcd, if_neg (fun h => hcd (List.cons.inj h).1)]

section Keyword

variable {text n : String} (htext : Text.isName text.toList = true)
  (hn : Text.isName n.toList = true) (s : List Char)

include htext in
theorem keyword_reads : (keyword text).Reads (text.toList ++ ' ' :: s) () (skipFiller s) := by
  have hchars := Text.continuesName_of_isName htext
  have hsplit : splitKeyword text.toList (text.toList ++ ' ' :: s) = some ((), ' ' :: s) := by
    rw [splitKeyword_space hchars hchars, if_pos rfl]
  have hread := (Reads.token hsplit).named
  rwa [skipFiller_space] at hread

include htext hn in
theorem keyword_misses (hne : n ≠ text) : (keyword text).Misses (n.toList ++ ' ' :: s) := by
  refine .named (.token ?_)
  rw [splitKeyword_space (Text.continuesName_of_isName htext) (Text.continuesName_of_isName hn),
    if_neg fun h => hne (String.toList_injective h).symm]

end Keyword

end Words

end LineScript.Line
