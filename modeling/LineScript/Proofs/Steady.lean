import LineScript.Proofs.Reads
import LineScript.Proofs.Tails

/-!
# Phrases with more text after the line

A line with a filler after it is read like the line alone, phrase by phrase: what is left of the one
is what is left of the other with the filler after it. Only a line that leaves a quote or a
parenthesis open can be read in another way.
-/
namespace LineScript.Line

open Text Phrase

/-- What is left of a line with a filler after it, where so much is left of the line alone. Words
take the filler behind them, so that with the line the filler is gone as well. -/
def tailed (t s : List Char) : List Char :=
  if s = [] then [] else s ++ t

def onward {α : Type} (t : List Char) (found : α × List Char) : α × List Char :=
  (found.1, tailed t found.2)

section Filler

variable {t s front : List Char} {m : Int}

@[simp] theorem tailed_nil (t : List Char) : tailed t [] = [] :=
  rfl

theorem tailed_of_ne_nil (h : s ≠ []) : tailed t s = s ++ t :=
  if_neg h

theorem length_le_tailed (t s : List Char) : s.length ≤ (tailed t s).length := by
  unfold tailed
  split_ifs with hs
  · simp [hs]
  · simp

theorem isPlain_of_isSpace {c : Char} (h : isSpace c = true) : isPlain c = true := by
  simp only [isSpace, Bool.or_eq_true, beq_iff_eq] at h
  rcases h with rfl | rfl
  · rfl
  · rfl

theorem skipFiller_comment (h : s.dropWhile isSpace = '/' :: '/' :: front) : skipFiller s = [] := by
  unfold skipFiller
  rw [h]
  rfl

theorem skipFiller_other (h : ∀ text, s.dropWhile isSpace ≠ '/' :: '/' :: text) :
    skipFiller s = s.dropWhile isSpace := by
  unfold skipFiller
  split
  · rename_i heq
    exact absurd heq (h _)
  · rfl

/-- The filler after a part of a line opens and closes nothing. -/
theorem eats_filler (h : Spans front m) (s : List Char) : Eats m (front ++ s) (skipFiller s) := by
  have hspaces : ∀ c ∈ s.takeWhile isSpace, isPlain c = true :=
    fun c hc => isPlain_of_isSpace (List.all_eq_true.mp List.all_takeWhile c hc)
  refine ⟨front ++ s.takeWhile isSpace, h.append_plain hspaces, ?_⟩
  rcases Classical.exists_or_forall_not fun text => s.dropWhile isSpace = '/' :: '/' :: text with
    ⟨text, hcomment⟩ | hother
  · refine Or.inr ⟨skipFiller_comment hcomment, text, ?_⟩
    rw [← hcomment, List.append_assoc, List.takeWhile_append_dropWhile]
  · refine Or.inl ?_
    rw [skipFiller_other hother, List.append_assoc, List.takeWhile_append_dropWhile]

theorem Trailing.not_comment (ht : Trailing t) (hs : s ≠ []) (h : ∀ text, s ≠ '/' :: '/' :: text)
    (text : List Char) : s ++ t ≠ '/' :: '/' :: text := by
  obtain ⟨c, rest, rfl⟩ := List.exists_cons_of_ne_nil hs
  intro heq
  obtain ⟨rfl, hrest⟩ : c = '/' ∧ rest ++ t = '/' :: text := List.cons.inj heq
  rcases head_cases '/' rest with ⟨more, rfl⟩ | hhead
  · exact h more rfl
  · exact ht.head_append_ne rfl hhead '/' (hrest ▸ rfl) rfl

theorem skipFiller_append (ht : Trailing t) (s : List Char) :
    skipFiller (s ++ t) = tailed t (skipFiller s) := by
  by_cases hnil : s.dropWhile isSpace = []
  · have hs : skipFiller s = [] := by
      rw [skipFiller_other (by simp [hnil]), hnil]
    have htail : (s ++ t).dropWhile isSpace = t.dropWhile isSpace := by
      rw [List.dropWhile_append, hnil]
      rfl
    rw [hs, tailed_nil, ← ht.filler]
    unfold skipFiller
    rw [htail]
  · have htail : (s ++ t).dropWhile isSpace = s.dropWhile isSpace ++ t := by
      rw [List.dropWhile_append, if_neg (by simpa using hnil)]
    rcases Classical.exists_or_forall_not fun text => s.dropWhile isSpace = '/' :: '/' :: text with
      ⟨text, hcomment⟩ | hother
    · rw [hcomment] at htail
      rw [skipFiller_comment hcomment, skipFiller_comment htail, tailed_nil]
    · have hother' := ht.not_comment hnil hother
      rw [← htail] at hother'
      rw [skipFiller_other hother, skipFiller_other hother', htail, tailed_of_ne_nil hnil]

end Filler

namespace Phrase

variable {α β : Type} {t : List Char} {n k : Nat} {p q p' q' : Phrase α}

/-- A phrase reads the same from a line and from the line with the filler after it, unless the line
is doomed. The phrase closes a number of parentheses that are open before it. With the filler the
phrase may be another one, as bounds on the depth of phrases grow with the line. -/
structure Steady (t : List Char) (n k : Nat) (p q : Phrase α) : Prop where
  eats : ∀ {line s rest : List Char} {m : Int} {a : α}, Eats m line s → k ≤ m →
    p.Reads s a rest → Eats (m - k) line rest
  agrees : ∀ {line s : List Char} {m : Int}, Eats m line s → k ≤ m → s.length < n →
    Doomed line ∨ (q (tailed t s)).found = (p s).found.map (onward t)

theorem reads_token {read : List Char → Option (α × List Char)} {s rest : List Char} {a : α}
    (h : (token read).Reads s a rest) :
    ∃ left, read s = some (a, left) ∧ skipFiller left = rest := by
  unfold Reads token at h
  cases hread : read s with
  | none =>
    rw [hread] at h
    cases h
  | some found =>
    obtain ⟨b, left⟩ := found
    rw [hread] at h
    obtain ⟨rfl, rfl⟩ := Prod.mk.inj (Option.some.inj h)
    exact ⟨left, rfl, rfl⟩

theorem reads_bind {f : α → Phrase β} {s rest : List Char} {b : β} (h : (p >>= f).Reads s b rest) :
    ∃ a mid, p.Reads s a mid ∧ (f a).Reads mid b rest := by
  cases hfound : (p s).found with
  | none =>
    have hmisses : (p >>= f).Misses s := Misses.bind hfound
    cases hmisses.symm.trans h
  | some found =>
    have hp : p.Reads s found.1 found.2 := hfound
    exact ⟨found.1, found.2, hp, hp.bind_eq.symm.trans h⟩

namespace Steady

theorem mono {n' : Nat} (h : Steady t n k p q) (hn : n' ≤ n) : Steady t n' k p q :=
  ⟨h.eats, fun heats hk hs => h.agrees heats hk (Nat.lt_of_lt_of_le hs hn)⟩

theorem length_le (h : Steady t n 0 p q) {s rest : List Char} {a : α} (hp : p.Reads s a rest) :
    rest.length ≤ s.length :=
  (h.eats (Eats.refl s) (Int.le_refl 0) hp).length_le

theorem absent : Steady t n k (absent : Phrase α) Phrase.absent := by
  refine ⟨fun _ _ h => ?_, fun _ _ _ => Or.inr rfl⟩
  cases h

theorem pure (a : α) : Steady t n 0 (pure a : Phrase α) (Pure.pure a) := by
  refine ⟨fun heats _ h => ?_, fun _ _ _ => Or.inr rfl⟩
  obtain ⟨_, rfl⟩ := Prod.mk.inj (Option.some.inj h)
  simpa using heats

theorem named (h : Steady t n k p q) : Steady t n k (named p) (named q) := by
  refine ⟨fun {line s rest m a} heats hk hp => ?_, fun {line s m} heats hk hs => ?_⟩
  · exact h.eats heats hk ((found_named p s).symm.trans hp)
  · rw [found_named, found_named]
    exact h.agrees heats hk hs

theorem either (hp : Steady t n k p p') (hq : Steady t n k q q') :
    Steady t n k (p <|> q) (p' <|> q') := by
  constructor
  · intro line s rest m a heats hk h
    cases hfound : (p s).found with
    | none =>
      rw [Reads, Misses.either_eq hfound] at h
      exact hq.eats heats hk h
    | some found =>
      have htaken : (p <|> q).Reads s found.1 found.2 := Reads.either hfound
      obtain ⟨rfl, rfl⟩ := Prod.mk.inj (Option.some.inj (htaken.symm.trans h))
      exact hp.eats heats hk hfound
  · intro line s m heats hk hs
    rcases hp.agrees heats hk hs with hdoomed | hagree
    · exact Or.inl hdoomed
    cases hfound : (p s).found with
    | none =>
      rw [hfound] at hagree
      rw [Misses.either_eq hfound, Misses.either_eq hagree]
      exact hq.agrees heats hk hs
    | some found =>
      rw [hfound] at hagree
      have htaken : (p <|> q).Reads s found.1 found.2 := Reads.either hfound
      have htaken' : (p' <|> q').Reads _ found.1 _ := Reads.either hagree
      exact Or.inr (by rw [htaken, htaken', Option.map_some, onward])

/-- One phrase after another, where the first leaves some more parentheses open. -/
theorem after {f g : α → Phrase β} {n' k' : Nat} {d : Int}
    (heats : ∀ {line s rest : List Char} {m : Int} {a : α}, Eats m line s → 0 ≤ m →
      p.Reads s a rest → Eats (m + d) line rest)
    (hagrees : ∀ {line s : List Char} {m : Int}, Eats m line s → 0 ≤ m → s.length < n' →
      Doomed line ∨ (q (tailed t s)).found = (p s).found.map (onward t))
    (hlength : ∀ {s rest : List Char} {a : α}, p.Reads s a rest → s.length < n' → rest.length < n)
    (hk : k' + d = k) (hf : ∀ a, Steady t n k (f a) (g a)) :
    Steady t n' k' (p >>= f) (q >>= g) := by
  have hnonneg {m : Int} (hm : (k' : Int) ≤ m) : 0 ≤ m := Int.le_trans (Int.natCast_nonneg k') hm
  have hclosed {m : Int} (hm : (k' : Int) ≤ m) : (k : Int) ≤ m + d := by
    rw [← hk]
    exact Int.add_le_add_right hm d
  constructor
  · intro line s rest m b hline hm h
    obtain ⟨a, mid, hp, hfa⟩ := reads_bind h
    have hrest := (hf a).eats (heats hline (hnonneg hm) hp) (hclosed hm) hfa
    rwa [show m + d - k = m - k' by omega] at hrest
  · intro line s m hline hm hs
    rcases hagrees hline (hnonneg hm) hs with hdoomed | hagree
    · exact Or.inl hdoomed
    cases hfound : (p s).found with
    | none =>
      rw [hfound] at hagree
      have hmisses : (p >>= f).Misses s := Misses.bind hfound
      have hmisses' : (q >>= g).Misses (tailed t s) := Misses.bind hagree
      exact Or.inr (by rw [hmisses, hmisses', Option.map_none])
    | some found =>
      rw [hfound] at hagree
      obtain ⟨a, mid⟩ := found
      have hp : p.Reads s a mid := hfound
      have hq : q.Reads (tailed t s) a (tailed t mid) := hagree
      rw [hp.bind_eq, hq.bind_eq]
      exact (hf a).agrees (heats hline (hnonneg hm) hp) (hclosed hm) (hlength hp hs)

theorem bind_within {f g : α → Phrase β} {n' : Nat} (hp : Steady t n' 0 p q)
    (hlength : ∀ {s rest : List Char} {a : α}, p.Reads s a rest → s.length < n' → rest.length < n)
    (hf : ∀ a, Steady t n k (f a) (g a)) : Steady t n' k (p >>= f) (q >>= g) := by
  refine after (d := 0) (fun {line s rest m a} hline hm h => ?_) hp.agrees hlength
    (Int.add_zero _) hf
  have heats := hp.eats hline hm h
  rwa [Int.natCast_zero, Int.sub_zero, ← Int.add_zero m] at heats

theorem bind {f g : α → Phrase β} (hp : Steady t n 0 p q) (hf : ∀ a, Steady t n k (f a) (g a)) :
    Steady t n k (p >>= f) (q >>= g) :=
  hp.bind_within (fun h hs => Nat.lt_of_le_of_lt (hp.length_le h) hs) hf

theorem map (g : α → β) (hp : Steady t n 0 p q) : Steady t n 0 (g <$> p) (g <$> q) :=
  hp.bind fun a => .pure (g a)

theorem optional (hp : Steady t n 0 p q) : Steady t n 0 (optional p) (optional q) :=
  (hp.bind fun a => .pure (some a)).either (.pure none)

theorem of_zero {r : Phrase α} (hp : Steady t n k p q) : Steady t 0 k p r :=
  ⟨hp.eats, fun _ _ hs => absurd hs (Nat.not_lt_zero _)⟩

/-- A phrase whose bound grows with the text. -/
theorem bounded {p q : Nat → Phrase α}
    (h : ∀ m extra, Steady t (min m n) 0 (p m) (q (m + extra))) :
    Steady t n 0 (fun s => p (s.length + 1) s) (fun s => q (s.length + 1) s) := by
  constructor
  · intro line s rest m a hline hm hp
    exact (h (s.length + 1) 0).eats hline hm hp
  · intro line s m hline hm hs
    obtain ⟨extra, hextra⟩ := Nat.exists_eq_add_of_le (length_le_tailed t s)
    have hbound : s.length < min (s.length + 1) n := Nat.lt_min.mpr ⟨Nat.lt_succ_self _, hs⟩
    have hagrees := (h (s.length + 1) extra).agrees hline hm hbound
    rwa [Nat.add_right_comm, ← hextra] at hagrees

section Many

variable (hp : Steady t n 0 p q)
  (hlength : ∀ {s rest : List Char} {a : α}, p.Reads s a rest → rest.length < s.length)

include hp hlength

/-- A phrase as often as it is there, if each time it takes a character. -/
theorem manyWithin (m extra : Nat) :
    Steady t (min m n) 0 (manyWithin m p) (manyWithin (m + extra) q) := by
  induction m with
  | zero =>
    rw [Nat.zero_min]
    exact of_zero (n := 0) (.pure [])
  | succ m ih =>
    rw [Nat.succ_add]
    have hfirst := hp.mono (Nat.min_le_right (m + 1) n)
    refine either (bind_within hfirst ?_ fun a => ih.bind fun rest => .pure (a :: rest)) (.pure [])
    -- the phrase takes a character, so that what it leaves fits the smaller bound
    intro s rest a h hs
    have hshorter := hlength h
    omega

theorem many : Steady t n 0 (many p) (many q) :=
  bounded (p := fun m => Phrase.manyWithin m p) (q := fun m => Phrase.manyWithin m q)
    (hp.manyWithin hlength)

end Many

end Steady

section Tokens

/-- The words at the end of a line take the filler along. -/
theorem token_agrees {read : List Char → Option (α × List Char)} {s : List Char} (ht : Trailing t)
    (hnil : ∀ a rest, read [] = some (a, rest) → rest = [])
    (hread : read (s ++ t) = (read s).map (behind t)) :
    (token read (tailed t s)).found = (token read s).found.map (onward t) := by
  by_cases hs : s = []
  · subst hs
    rw [tailed_nil]
    cases hempty : read [] with
    | none => simp only [token, hempty, Option.map_none]
    | some found =>
      obtain ⟨a, rest⟩ := found
      obtain rfl := hnil a rest hempty
      simp only [token, hempty, Option.map_some]
      rfl
  · rw [tailed_of_ne_nil hs]
    unfold token
    rw [hread]
    cases read s with
    | none => rfl
    | some found => simp only [Option.map_some, behind, onward, skipFiller_append ht]

theorem Steady.token {read : List Char → Option (α × List Char)} (ht : Trailing t)
    (hspans : ∀ {s rest : List Char} {a : α}, read s = some (a, rest) →
      ∃ front, s = front ++ rest ∧ Spans front 0)
    (hread : ∀ s, Doomed s ∨ read (s ++ t) = (read s).map (behind t)) :
    Steady t n 0 (token read) (token read) := by
  constructor
  · intro line s rest m a hline hm h
    obtain ⟨left, hsplit, rfl⟩ := reads_token h
    obtain ⟨front, rfl, hfront⟩ := hspans hsplit
    have heats := hline.trans hm (eats_filler hfront left)
    simpa using heats
  · intro line s m hline hm hs
    refine (hread s).imp (fun hdoomed => hline.doomed hm hdoomed) fun hs => token_agrees ht ?_ hs
    intro a rest hempty
    obtain ⟨front, hnil, _⟩ := hspans hempty
    exact (List.append_eq_nil_iff.mp hnil.symm).2

section Symbols

variable {f g : Unit → Phrase β} {text : String} {n' k' : Nat} {d : Int} (ht : Trailing t)

/-- The characters of a sign: none is part of a quote, a parenthesis or a comment. -/
def isSign (text : String) : Bool :=
  !text.toList.isEmpty && text.toList.all fun c => isPlain c && !isSpace c

theorem length_lt_of_symbol (hne : text.toList ≠ []) {s rest : List Char} {u : Unit}
    (h : (symbol text).Reads s u rest) : rest.length < s.length := by
  obtain ⟨left, hdrop, rfl⟩ := reads_token h
  have hlength := (eats_filler Spans.nil left).length_le
  have hpos := List.length_pos_iff.mpr hne
  rw [List.nil_append] at hlength
  rw [append_of_dropText hdrop, List.length_append]
  omega

include ht

theorem symbol_agrees (htext : ∀ c ∈ text.toList, isSpace c = false) (s : List Char) :
    (symbol text (tailed t s)).found = (symbol text s).found.map (onward t) := by
  refine token_agrees ht (fun a rest hempty => ?_) (dropText_tail ht htext s)
  exact (List.append_eq_nil_iff.mp (append_of_dropText hempty).symm).2

theorem Steady.symbol_bind (hspans : Spans text.toList d) (hne : text.toList ≠ [])
    (htext : ∀ c ∈ text.toList, isSpace c = false) (hk : k' + d = k) (hn : n' ≤ n + 1)
    (hf : Steady t n k (f ()) (g ())) : Steady t n' k' (symbol text >>= f) (symbol text >>= g) := by
  refine after ?_ (fun _ _ _ => Or.inr (symbol_agrees ht htext _)) ?_ hk fun _ => hf
  · intro line s rest m a hline hm h
    obtain ⟨left, hdrop, rfl⟩ := reads_token h
    rw [append_of_dropText hdrop] at hline
    exact hline.trans hm (eats_filler hspans left)
  · intro s rest a h hs
    have hlength := length_lt_of_symbol hne h
    omega

omit ht in
theorem spans_sign (h : isSign text = true) :
    Spans text.toList 0 ∧ text.toList ≠ [] ∧ ∀ c ∈ text.toList, isSpace c = false := by
  simp only [isSign, Bool.and_eq_true, Bool.not_eq_true', List.isEmpty_eq_false_iff,
    List.all_eq_true] at h
  exact ⟨.plain fun c hc => (h.2 c hc).1, h.1, fun c hc => (h.2 c hc).2⟩

theorem Steady.sign_bind (h : isSign text = true) (hn : n' ≤ n + 1)
    (hf : Steady t n k (f ()) (g ())) : Steady t n' k (symbol text >>= f) (symbol text >>= g) :=
  have ⟨hspans, hne, htext⟩ := spans_sign h
  symbol_bind ht hspans hne htext (Int.add_zero _) hn hf

theorem Steady.opening (hn : n' ≤ n + 1) (hf : Steady t n (k + 1) (f ()) (g ())) :
    Steady t n' k (symbol "(" >>= f) (symbol "(" >>= g) := by
  have hspans : Spans "(".toList 1 :=
    ⟨rfl, fun a b heq => by simp [List.cons_eq_append_iff] at heq⟩
  exact symbol_bind ht hspans (by simp) (by simp [isSpace]) rfl hn hf

theorem Steady.closing (hn : n' ≤ n + 1) (hf : Steady t n k (f ()) (g ())) :
    Steady t n' (k + 1) (symbol ")" >>= f) (symbol ")" >>= g) := by
  have hspans : Spans ")".toList (-1) :=
    ⟨rfl, fun a b heq => by simp [List.cons_eq_append_iff] at heq⟩
  exact symbol_bind ht hspans (by simp) (by simp [isSpace]) (by omega) hn hf

theorem Steady.sign (h : isSign text = true) : Steady t n 0 (symbol text) (symbol text) := by
  obtain ⟨hspans, _, htext⟩ := spans_sign h
  refine token ht (fun {s rest a} hdrop => ⟨text.toList, append_of_dropText hdrop, hspans⟩) ?_
  exact fun s => Or.inr (dropText_tail ht htext s)

end Symbols

end Tokens

end Phrase

end LineScript.Line
