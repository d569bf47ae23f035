import LineScript.Line.Word
import LineScript.Text.Blank
import LineScript.Text.Lines
import Mathlib.Data.List.Induction

/-!
# Brackets that close in kind

`passAll` reads a text with the closing brackets that are awaited, the innermost first. Brackets
count outside quotes only, and each has to be closed by its own kind. A text that `Passes` from some
awaited brackets to others does so whatever is awaited around them, so that the reading of a text is
put together from the reading of its parts.
-/
namespace LineScript

namespace Text

/-- A line has no line feed, and a semicolon only where one is allowed. -/
def fits (semi : Bool) (c : Char) : Bool :=
  c != '\n' && (c != ';' || semi)

def step : Quoting × List Char → Char → Option (Quoting × List Char)
  | (.outside, awaited), c =>
    if opensBracket c then some (.outside, Line.closerOf c :: awaited)
    else if closesBracket c then
      match awaited with
      | [] => none
      | d :: outer => if c = d then some (.outside, outer) else none
    else some (Quoting.outside.next c, awaited)
  | (quoting, awaited), c => some (quoting.next c, awaited)

def pass (semi : Bool) (state : Quoting × List Char) (c : Char) : Option (Quoting × List Char) :=
  if fits semi c then step state c else none

def passAll (semi : Bool) (state : Quoting × List Char) (t : List Char) :
    Option (Quoting × List Char) :=
  t.foldlM (pass semi) state

section Reading

variable {semi : Bool} {c : Char} {awaited outer t u : List Char} {quoting : Quoting}
  {state final : Quoting × List Char}

theorem passAll_cons (state : Quoting × List Char) (c : Char) (t : List Char) :
    passAll semi state (c :: t) = (pass semi state c).bind fun next => passAll semi next t :=
  List.foldlM_cons

theorem passAll_append (state : Quoting × List Char) (t u : List Char) :
    passAll semi state (t ++ u) = (passAll semi state t).bind fun next => passAll semi next u :=
  List.foldlM_append

theorem passAll_append_of_eq (ht : passAll semi state t = some final) :
    passAll semi state (t ++ u) = passAll semi final u := by
  rw [passAll_append, ht, Option.bind_some]

theorem passAll_snoc (state : Quoting × List Char) (t : List Char) (c : Char) :
    passAll semi state (t ++ [c]) = (passAll semi state t).bind fun next => pass semi next c := by
  rw [passAll_append]
  cases passAll semi state t with
  | none => rfl
  | some next => exact bind_pure (pass semi next c)

theorem fits_of_passAll (h : passAll semi state t = some final) : ∀ c ∈ t, fits semi c = true := by
  induction t generalizing state with
  | nil => simp
  | cons d t ih =>
    rw [passAll_cons, Option.bind_eq_some_iff] at h
    obtain ⟨next, hnext, h⟩ := h
    rw [pass] at hnext
    split_ifs at hnext with hfits
    exact List.forall_mem_cons.mpr ⟨hfits, ih h⟩

/-- Where all characters fit, only the quotes and brackets matter. -/
theorem passAll_cons_of_fits (hc : fits semi c = true) :
    passAll semi state (c :: t) = (step state c).bind fun next => passAll semi next t := by
  rw [passAll_cons, pass, if_pos hc]

theorem passAll_of_fits {semi' : Bool} (h : passAll semi state t = some final)
    (hfits : ∀ c ∈ t, fits semi' c = true) : passAll semi' state t = some final := by
  induction t generalizing state with
  | nil => exact h
  | cons d t ih =>
    rw [List.forall_mem_cons] at hfits
    rw [passAll_cons_of_fits hfits.1]
    rw [passAll_cons_of_fits (fits_of_passAll h d List.mem_cons_self),
      Option.bind_eq_some_iff] at h
    obtain ⟨next, hnext, h⟩ := h
    rw [hnext, Option.bind_some, ih h hfits.2]

theorem step_opens (h : opensBracket c = true) :
    step (.outside, awaited) c = some (.outside, Line.closerOf c :: awaited) :=
  if_pos h

theorem step_closes (h : ¬ opensBracket c = true) (hcloses : closesBracket c = true) :
    step (.outside, c :: awaited) c = some (.outside, awaited) := by
  rw [step, if_neg h, if_pos hcloses]
  exact if_pos rfl

theorem step_other (h : ¬ opensBracket c = true) (hcloses : ¬ closesBracket c = true) :
    step (.outside, awaited) c = some (Quoting.outside.next c, awaited) :=
  (if_neg h).trans (if_neg hcloses)

theorem step_quoted (h : quoting ≠ .outside) :
    step (quoting, awaited) c = some (quoting.next c, awaited) := by
  cases quoting with
  | outside => exact absurd rfl h
  | inside mark => rfl
  | escaped mark => rfl

theorem next_of_opens {c : Char} (h : opensBracket c = true) :
    Quoting.outside.next c = .outside := by
  refine if_neg fun hmark => ?_
  simp only [opensBracket, isQuoteMark, Bool.or_eq_true, beq_iff_eq] at h hmark
  rcases hmark with rfl | rfl <;> simp at h

theorem next_of_closes {c : Char} (h : closesBracket c = true) :
    Quoting.outside.next c = .outside := by
  refine if_neg fun hmark => ?_
  simp only [closesBracket, isQuoteMark, Bool.or_eq_true, beq_iff_eq] at h hmark
  rcases hmark with rfl | rfl <;> simp at h

/-- What a character does outside quotes: it opens a bracket, closes the innermost one, or leaves
the brackets as they are. -/
theorem step_outside_cases {awaited awaited' : List Char} {c : Char} {quoting : Quoting}
    (h : step (.outside, awaited) c = some (quoting, awaited')) :
    quoting = Quoting.outside.next c ∧
      ((opensBracket c = true ∧ awaited' = Line.closerOf c :: awaited) ∨
        (¬ opensBracket c = true ∧ closesBracket c = true ∧ awaited = c :: awaited') ∨
        (¬ opensBracket c = true ∧ ¬ closesBracket c = true ∧ awaited' = awaited)) := by
  by_cases hopens : opensBracket c = true
  · rw [step_opens hopens] at h
    obtain ⟨rfl, rfl⟩ := Prod.mk.inj (Option.some.inj h)
    exact ⟨(next_of_opens hopens).symm, Or.inl ⟨hopens, rfl⟩⟩
  by_cases hcloses : closesBracket c = true
  · cases awaited with
    | nil => simp [step, hopens, hcloses] at h
    | cons d outer =>
      obtain rfl : c = d := by
        by_contra hne
        simp [step, hopens, hcloses, hne] at h
      rw [step_closes hopens hcloses] at h
      obtain ⟨rfl, rfl⟩ := Prod.mk.inj (Option.some.inj h)
      exact ⟨(next_of_closes hcloses).symm, Or.inr (Or.inl ⟨hopens, hcloses, rfl⟩)⟩
  · rw [step_other hopens hcloses] at h
    obtain ⟨rfl, rfl⟩ := Prod.mk.inj (Option.some.inj h)
    exact ⟨rfl, Or.inr (Or.inr ⟨hopens, hcloses, rfl⟩)⟩

/-- A character that is neither a bracket nor a quotation mark. -/
def isNeutral (c : Char) : Bool :=
  !opensBracket c && !closesBracket c && !isQuoteMark c

theorem step_neutral (h : isNeutral c = true) :
    step (.outside, awaited) c = some (.outside, awaited) := by
  simp only [isNeutral, Bool.and_eq_true, Bool.not_eq_true'] at h
  rw [step_other (by simp [h.1.1]) (by simp [h.1.2]), Quoting.next, if_neg (by simp [h.2])]

theorem passAll_neutral (hfits : ∀ c ∈ t, fits semi c = true) (h : ∀ c ∈ t, isNeutral c = true) :
    passAll semi (.outside, awaited) t = some (.outside, awaited) := by
  induction t with
  | nil => rfl
  | cons c t ih =>
    rw [List.forall_mem_cons] at h hfits
    rw [passAll_cons_of_fits hfits.1, step_neutral h.1, Option.bind_some, ih hfits.2 h.2]

end Reading

section Trim

variable {semi : Bool} {c : Char} {awaited t : List Char} {quoting : Quoting}
  {final : Quoting × List Char}

theorem isNeutral_of_isBlank (h : isBlank c = true) : isNeutral c = true := by
  simp only [isNeutral, opensBracket, closesBracket, isQuoteMark, Bool.and_eq_true,
    Bool.not_eq_true', Bool.or_eq_false_iff, beq_eq_false_iff_ne, ne_eq]
  refine ⟨⟨⟨⟨?_, ?_⟩, ?_⟩, ⟨?_, ?_⟩, ?_⟩, ?_, ?_⟩ <;> rintro rfl <;> exact absurd h (by decide)

/-- Quotes are opened by quotation marks only. -/
def Quoting.Marked : Quoting → Prop
  | .outside => True
  | .inside mark => isQuoteMark mark = true
  | .escaped mark => isQuoteMark mark = true

theorem Quoting.Marked.next (h : quoting.Marked) (c : Char) : (quoting.next c).Marked := by
  cases quoting with
  | outside =>
    rw [Quoting.next]
    split_ifs with hc
    · exact hc
    · trivial
  | inside mark =>
    rw [Quoting.next]
    split_ifs
    · exact h
    · trivial
    · exact h
  | escaped mark => exact h

theorem Quoting.Marked.step {state final : Quoting × List Char} (h : state.1.Marked)
    (hstep : Text.step state c = some final) : final.1.Marked := by
  obtain ⟨quoting, awaited⟩ := state
  cases quoting with
  | inside _ | escaped _ =>
    obtain rfl := Option.some.inj hstep
    exact h.next c
  | outside =>
    obtain ⟨quoting', awaited'⟩ := final
    obtain ⟨rfl, _⟩ := step_outside_cases hstep
    exact h.next c

theorem marked_of_passAll {state : Quoting × List Char} (hstate : state.1.Marked)
    (h : passAll semi state t = some final) : final.1.Marked := by
  induction t generalizing state with
  | nil => exact Option.some.inj h ▸ hstate
  | cons c t ih =>
    rw [passAll_cons_of_fits (fits_of_passAll h c List.mem_cons_self),
      Option.bind_eq_some_iff] at h
    obtain ⟨next, hnext, h⟩ := h
    exact ih (hstate.step hnext) h

theorem passAll_trimLeft (h : passAll semi (.outside, awaited) t = some final) :
    passAll semi (.outside, awaited) (trimLeft t) = some final := by
  unfold trimLeft
  induction t with
  | nil => exact h
  | cons c t ih =>
    by_cases hc : isBlank c = true
    · rw [List.dropWhile_cons_of_pos hc]
      rw [passAll_cons_of_fits (fits_of_passAll h c List.mem_cons_self),
        step_neutral (isNeutral_of_isBlank hc), Option.bind_some] at h
      exact ih h
    · rwa [List.dropWhile_cons_of_neg hc]

theorem trimRight_snoc (t : List Char) (c : Char) :
    trimRight (t ++ [c]) = if isBlank c then trimRight t else t ++ [c] := by
  rw [trimRight, List.reverse_append, List.reverse_singleton, List.singleton_append,
    List.dropWhile_cons]
  split_ifs
  · rfl
  · rw [List.reverse_cons, List.reverse_reverse]

theorem trimRight_cons {c : Char} (h : isBlank c = false) (t : List Char) :
    trimRight (c :: t) = c :: trimRight t := by
  induction t using List.reverseRecOn with
  | nil => rw [← List.nil_append [c], trimRight_snoc, h]; rfl
  | append_singleton t d ih =>
    rw [← List.cons_append, trimRight_snoc, trimRight_snoc]
    split_ifs
    · exact ih
    · rfl

theorem trimBoth_cons {c : Char} (h : isBlank c = false) (t : List Char) :
    trimBoth (c :: t) = c :: trimRight t := by
  rw [trimBoth, trimLeft, List.dropWhile_cons_of_neg (by simp [h]), trimRight_cons h]

theorem trimBoth_eq_self {t : List Char} (hstart : ∀ c ∈ t.head?, isBlank c = false)
    (hend : ∀ c ∈ t.getLast?, isBlank c = false) : trimBoth t = t := by
  cases t with
  | nil => rfl
  | cons c rest =>
    have hfirst : isBlank c = false := hstart c rfl
    rw [trimBoth_cons hfirst, ← trimRight_cons hfirst]
    rcases (c :: rest).eq_nil_or_concat with hnil | ⟨front, d, hlast⟩
    · cases hnil
    · rw [List.concat_eq_append] at hlast
      rw [hlast, trimRight_snoc, hend d (by rw [hlast, List.getLast?_concat]; rfl)]
      rfl

/-- A blank at the end is outside quotes if the end is. -/
theorem passAll_trimRight {state : Quoting × List Char} (hstate : state.1.Marked)
    (h : passAll semi state t = some (.outside, awaited)) :
    passAll semi state (trimRight t) = some (.outside, awaited) := by
  induction t using List.reverseRecOn with
  | nil => exact h
  | append_singleton t c ih =>
    rw [trimRight_snoc]
    split_ifs with hc
    · apply ih
      rw [passAll_snoc, Option.bind_eq_some_iff] at h
      obtain ⟨⟨quoting, inner⟩, ht, hlast⟩ := h
      rw [pass] at hlast
      split_ifs at hlast
      have hmarked := marked_of_passAll hstate ht
      cases quoting with
      | outside =>
        rw [step_neutral (isNeutral_of_isBlank hc)] at hlast
        rw [ht, hlast]
      | escaped mark => cases hlast
      | inside mark =>
        rw [step_quoted (by simp), Quoting.next] at hlast
        split_ifs at hlast with hslash hmark
        · cases hlast
        · have hneutral := isNeutral_of_isBlank hc
          rw [isNeutral, hmark, hmarked] at hneutral
          simp at hneutral
        · cases hlast
    · exact h

theorem passAll_trimBoth (h : passAll semi (.outside, awaited) t = some (.outside, awaited)) :
    passAll semi (.outside, awaited) (trimBoth t) = some (.outside, awaited) :=
  passAll_trimRight trivial (passAll_trimLeft h)

end Trim

/-- Reading the text takes the awaited brackets to others, whatever is awaited around them. -/
def Passes (semi : Bool) (before : List Char) (t : String) (after : List Char) : Prop :=
  ∀ outer, passAll semi (.outside, before ++ outer) t.toList = some (.outside, after ++ outer)

/-- All brackets of the text close within it, and so do its quotes. -/
def Paired (semi : Bool) (t : String) : Prop :=
  Passes semi [] t []

section Passes

variable {semi : Bool} {a b c : List Char} {t u : String}

theorem Passes.append (ht : Passes semi a t b) (hu : Passes semi b u c) :
    Passes semi a (t ++ u) c := by
  intro outer
  rw [String.toList_append, passAll_append_of_eq (ht outer), hu outer]

namespace Paired

theorem frame (h : Paired semi t) (a : List Char) : Passes semi a t a :=
  fun outer => h (a ++ outer)

theorem fits (h : Paired semi t) : ∀ c ∈ t.toList, fits semi c = true :=
  fits_of_passAll (h [])

theorem allowing (h : Paired semi t) : Paired true t := by
  refine fun outer => passAll_of_fits (h outer) fun c hc => ?_
  have hfits := h.fits c hc
  simp only [Text.fits, Bool.and_eq_true] at hfits
  simp [Text.fits, hfits.1]

theorem neutral (hfits : ∀ c ∈ t.toList, Text.fits semi c = true)
    (h : ∀ c ∈ t.toList, isNeutral c = true) : Paired semi t :=
  fun _ => passAll_neutral hfits h

theorem trim (h : Paired semi t) : Paired semi (trim t) := by
  intro outer
  rw [Text.trim, String.toList_ofList]
  exact passAll_trimBoth (h outer)

/-- A text in parentheses or other brackets. -/
theorem within (h : Paired semi t) (d : Char) {opening closing : String}
    (hopening : Passes semi [] opening [d]) (hclosing : Passes semi [d] closing []) :
    Paired semi (opening ++ t ++ closing) :=
  (hopening.append (h.frame _)).append hclosing

theorem joinWith {separator : String} (hseparator : Paired semi separator) {parts : List String}
    (h : ∀ part ∈ parts, Paired semi part) : Paired semi (joinWith separator parts) := by
  unfold Text.joinWith
  induction parts with
  | nil =>
    rw [String.intercalate_nil]
    exact fun _ => rfl
  | cons part rest ih =>
    rw [List.forall_mem_cons] at h
    cases rest with
    | nil =>
      rw [String.intercalate_singleton]
      exact h.1
    | cons next rest =>
      rw [String.intercalate_cons_cons]
      exact (h.1.append hseparator).append (ih h.2)

end Paired

end Passes

section Names

variable {c : Char}

theorem isNeutral_of_continuesName (h : continuesName c = true) : isNeutral c = true := by
  simp only [isNeutral, opensBracket, closesBracket, isQuoteMark, Bool.and_eq_true,
    Bool.not_eq_true', Bool.or_eq_false_iff, beq_eq_false_iff_ne, ne_eq]
  refine ⟨⟨⟨⟨?_, ?_⟩, ?_⟩, ⟨?_, ?_⟩, ?_⟩, ?_, ?_⟩ <;> rintro rfl <;> exact absurd h (by decide)

theorem fits_of_continuesName (semi : Bool) (h : continuesName c = true) : fits semi c = true := by
  have hfeed : c ≠ '\n' := by
    rintro rfl
    exact absurd h (by decide)
  have hsemi : c ≠ ';' := by
    rintro rfl
    exact absurd h (by decide)
  simp [fits, hfeed, hsemi]

theorem toNat_of_startsName (h : startsName c = true) : 0x41 ≤ c.toNat ∧ c.toNat ≤ 0x7a := by
  rw [startsName, Bool.or_eq_true, beq_iff_eq] at h
  rcases h with h | rfl
  · have halpha : (c.isUpper || c.isLower) = true := h
    rcases (Bool.or_eq_true _ _).mp halpha with h | h
    · obtain ⟨hlow, hhigh⟩ : 'A'.val ≤ c.val ∧ c.val ≤ 'Z'.val := of_decide_eq_true h
      exact ⟨hlow, Nat.le_trans hhigh (by decide)⟩
    · have hlower : (decide ('a'.val ≤ c.val) && decide (c.val ≤ 'z'.val)) = true := h
      rw [Bool.and_eq_true, decide_eq_true_eq, decide_eq_true_eq] at hlower
      exact ⟨Nat.le_trans (by decide) hlower.1, hlower.2⟩
  · decide

theorem continuesName_of_startsName (h : startsName c = true) : continuesName c = true := by
  simp only [startsName, continuesName, Char.isAlphanum, Bool.or_eq_true] at h ⊢
  exact h.imp_left Or.inl

theorem isBlank_of_continuesName (h : continuesName c = true) : isBlank c = false := by
  have hbounds : 0x30 ≤ c.toNat ∧ c.toNat ≤ 0x7a := by
    simp only [continuesName, Char.isAlphanum, Bool.or_eq_true] at h
    rcases h with (h | h) | h
    · have halpha := toNat_of_startsName (c := c) (by rw [startsName, h, Bool.true_or])
      omega
    · simp only [Char.isDigit, Bool.and_eq_true, decide_eq_true_eq] at h
      exact ⟨h.1, Nat.le_trans h.2 (by decide)⟩
    · have hunderscore := toNat_of_startsName (c := c) (by rw [startsName, h, Bool.or_true])
      omega
  simp only [isBlank, Bool.or_eq_false_iff, Bool.and_eq_false_iff, decide_eq_false_iff_not,
    beq_eq_false_iff_ne]
  omega

theorem continuesName_of_isName {n : List Char} (h : isName n = true) :
    ∀ c ∈ n, continuesName c = true := by
  cases n with
  | nil => simp
  | cons c rest =>
    rw [isName, Bool.and_eq_true, List.all_eq_true] at h
    exact List.forall_mem_cons.mpr ⟨continuesName_of_startsName h.1, h.2⟩

theorem Paired.name {n : String} (semi : Bool) (h : isName n.toList = true) : Paired semi n :=
  .neutral (fun c hc => fits_of_continuesName semi (continuesName_of_isName h c hc))
    fun c hc => isNeutral_of_continuesName (continuesName_of_isName h c hc)

end Names

end Text

namespace Perl

theorem toList_quote (s : String) : (quote s).toList = '"' :: (quoteBody s.toList ++ ['"']) := by
  rw [quote, String.toList_ofList]
  rfl

theorem quoteBody_cons (c : Char) (s : List Char) :
    quoteBody (c :: s) = quoteChar c ++ quoteBody s :=
  List.flatMap_cons

/-- A character is written as it is, or as a backslash and a character that stands for it. -/
theorem quoteChar_cases (c : Char) :
    (quoteChar c = [c] ∧ c ≠ '\\' ∧ c ≠ '"' ∧ c ≠ '\n') ∨
      ∃ d, quoteChar c = ['\\', d] ∧ d ≠ '\n' ∧ escapeMeaning d = c := by
  unfold quoteChar
  split_ifs with hn ht hr hescaped
  · exact Or.inr ⟨'n', rfl, by decide, hn.symm⟩
  · exact Or.inr ⟨'t', rfl, by decide, ht.symm⟩
  · exact Or.inr ⟨'r', rfl, by decide, hr.symm⟩
  · refine Or.inr ⟨c, rfl, hn, ?_⟩
    rcases hescaped with rfl | rfl | rfl | rfl <;> rfl
  · rw [not_or, not_or] at hescaped
    exact Or.inl ⟨rfl, hescaped.1, hescaped.2.1, hn⟩

end Perl

namespace Text

open Perl

theorem fits_of_escapeMeaning {semi : Bool} {d : Char} (hfeed : d ≠ '\n')
    (h : escapeMeaning d ≠ '\n' → fits semi (escapeMeaning d) = true) : fits semi d = true := by
  by_cases hsemi : d = ';'
  · subst hsemi
    exact h (by decide)
  · simp [fits, hfeed, hsemi]

theorem passAll_quoteBody {semi : Bool} {s : List Char}
    (h : ∀ c ∈ s, c ≠ '\n' → fits semi c = true) (awaited : List Char) :
    passAll semi (.inside '"', awaited) (quoteBody s) = some (.inside '"', awaited) := by
  induction s with
  | nil => rfl
  | cons c s ih =>
    rw [List.forall_mem_cons] at h
    rw [quoteBody_cons]
    rcases quoteChar_cases c with ⟨hchar, hslash, hmark, hfeed⟩ | ⟨d, hchar, hfeed, rfl⟩
    · rw [hchar, List.singleton_append, passAll_cons_of_fits (h.1 hfeed), step_quoted (by simp),
        Option.bind_some, Quoting.next, if_neg hslash, if_neg hmark, ih h.2]
    · rw [hchar, List.cons_append, List.singleton_append,
        passAll_cons_of_fits (by cases semi <;> rfl), step_quoted (by simp), Option.bind_some,
        passAll_cons_of_fits (fits_of_escapeMeaning hfeed h.1), step_quoted (by decide),
        Option.bind_some]
      exact ih h.2

theorem Paired.quote {semi : Bool} {s : String}
    (h : ∀ c ∈ s.toList, c ≠ '\n' → Text.fits semi c = true) : Paired semi (quote s) := by
  intro outer
  rw [toList_quote, passAll_cons]
  change passAll semi (.inside '"', outer) _ = _
  rw [passAll_append_of_eq (passAll_quoteBody h outer)]
  rfl

theorem eq_cons_of_map {c : Char} {split : Option (List Char × List Char)}
    {inner after : List Char}
    (h : (split.map fun (inner, after) => (c :: inner, after)) = some (inner, after)) :
    ∃ inner', split = some (inner', after) ∧ inner = c :: inner' := by
  obtain ⟨⟨inner', after'⟩, hsplit, heq⟩ := Option.map_eq_some_iff.mp h
  obtain ⟨rfl, rfl⟩ := Prod.mk.inj heq
  exact ⟨inner', hsplit, rfl⟩

/-- Reading the text closes the inner brackets and no others. -/
def Closing (semi : Bool) (quoting : Quoting) (inner t : List Char) : Prop :=
  ∀ outer, passAll semi (quoting, inner ++ outer) t = some (.outside, outer)

theorem closing_cons {semi : Bool} {quoting quoting' : Quoting} {inner inner' t : List Char}
    {c : Char} (hfits : fits semi c = true)
    (hstep : ∀ outer, step (quoting, inner ++ outer) c = some (quoting', inner' ++ outer)) :
    Closing semi quoting inner (c :: t) ↔ Closing semi quoting' inner' t := by
  refine forall_congr' fun outer => ?_
  rw [passAll_cons_of_fits hfits, hstep, Option.bind_some]

/-- What a line takes as the inside of brackets closes the brackets that are open before it. -/
theorem closing_splitNested {semi : Bool} {quoting : Quoting} {awaited : Char}
    {outer s inner after : List Char}
    (h : Line.splitNested quoting awaited outer s = some (inner, after))
    (hfits : ∀ c ∈ inner, fits semi c = true) :
    Closing semi quoting (awaited :: outer).dropLast inner := by
  fun_induction Line.splitNested quoting awaited outer s generalizing inner with
  | case1 quoting awaited outer => cases h
  | case2 awaited outer c rest hopens ih =>
    obtain ⟨inner', hnested, rfl⟩ := eq_cons_of_map h
    rw [List.forall_mem_cons] at hfits
    exact (closing_cons hfits.1 fun _ => step_opens hopens).mpr (ih hnested hfits.2)
  | case3 c rest hopens hcloses =>
    obtain ⟨rfl, _⟩ := Prod.mk.inj (Option.some.inj h)
    exact fun _ => rfl
  | case4 c rest hopens hcloses next outer ih =>
    obtain ⟨inner', hnested, rfl⟩ := eq_cons_of_map h
    rw [List.forall_mem_cons] at hfits
    exact (closing_cons hfits.1 fun _ => step_closes hopens hcloses).mpr (ih hnested hfits.2)
  | case5 awaited outer c rest hopens hcloses hother => cases h
  | case6 awaited outer c rest hopens hcloses ih =>
    obtain ⟨inner', hnested, rfl⟩ := eq_cons_of_map h
    rw [List.forall_mem_cons] at hfits
    exact (closing_cons hfits.1 fun _ => step_other hopens hcloses).mpr (ih hnested hfits.2)
  | case7 quoting awaited outer c rest hquoted ih =>
    obtain ⟨inner', hnested, rfl⟩ := eq_cons_of_map h
    rw [List.forall_mem_cons] at hfits
    exact (closing_cons hfits.1 fun _ => step_quoted hquoted).mpr (ih hnested hfits.2)

/-- A character outside quotes changes the number of open brackets as counting them does. -/
theorem exists_step {inner : List Char} {c : Char} {state : Quoting × List Char}
    (h : step (.outside, inner) c = some state) :
    ∃ inner' : List Char,
      (inner'.length = if opensBracket c then inner.length + 1
        else if closesBracket c then inner.length - 1 else inner.length) ∧
      ∀ outer, step (.outside, inner ++ outer) c =
        some (Quoting.outside.next c, inner' ++ outer) := by
  obtain ⟨quoting, inner'⟩ := state
  obtain ⟨_, hcases⟩ := step_outside_cases h
  refine ⟨inner', ?_⟩
  rcases hcases with ⟨hopens, rfl⟩ | ⟨hopens, hcloses, rfl⟩ | ⟨hopens, hcloses, rfl⟩
  · exact ⟨by rw [if_pos hopens, List.length_cons],
      fun outer => by rw [step_opens hopens, next_of_opens hopens, List.cons_append]⟩
  · exact ⟨by rw [if_neg hopens, if_pos hcloses]; rfl,
      fun outer => by
        rw [List.cons_append, step_closes hopens hcloses, next_of_closes hcloses]⟩
  · exact ⟨by rw [if_neg hopens, if_neg hcloses], fun outer => step_other hopens hcloses⟩

/-- The first of the pieces between commas closes what the whole text closes, and the others are
paired. -/
theorem closing_splitCommas {semi : Bool} {quoting : Quoting} {inner t : List Char} {depth : Nat}
    (hdepth : inner.length = depth) (h : Closing semi quoting inner t) :
    ∃ first rest, splitCommas quoting depth t = first :: rest ∧
      Closing semi quoting inner first ∧ ∀ piece ∈ rest, Closing semi .outside [] piece := by
  have hfits : ∀ c ∈ t, fits semi c = true := fits_of_passAll (h [])
  fun_induction splitCommas quoting depth t generalizing inner with
  | case1 quoting depth => exact ⟨[], [], rfl, h, by simp⟩
  | case2 depth c rest hcomma ih =>
    obtain ⟨rfl, rfl⟩ := hcomma
    rw [List.forall_mem_cons] at hfits
    obtain rfl := List.length_eq_zero_iff.mp hdepth
    rw [closing_cons hfits.1 fun outer => rfl] at h
    obtain ⟨first, others, hsplit, hfirst, hothers⟩ := ih rfl h hfits.2
    rw [hsplit]
    exact ⟨[], first :: others, rfl, fun outer => rfl, List.forall_mem_cons.mpr ⟨hfirst, hothers⟩⟩
  | case3 depth c rest hcomma depth' =>
    rename_i ih
    rw [List.forall_mem_cons] at hfits
    have hall := h []
    rw [passAll_cons_of_fits hfits.1, List.append_nil, Option.bind_eq_some_iff] at hall
    obtain ⟨state, hstate, _⟩ := hall
    obtain ⟨inner', hlength, hstep⟩ := exists_step hstate
    rw [hdepth] at hlength
    rw [closing_cons hfits.1 hstep] at h
    obtain ⟨first, others, hsplit, hfirst, hothers⟩ := ih hlength h hfits.2
    rw [hsplit]
    exact ⟨c :: first, others, rfl, (closing_cons hfits.1 hstep).mpr hfirst, hothers⟩
  | case4 quoting depth c rest hquoted ih =>
    rw [List.forall_mem_cons] at hfits
    have hstep (outer : List Char) :
        step (quoting, inner ++ outer) c = some (quoting.next c, inner ++ outer) :=
      step_quoted hquoted
    rw [closing_cons hfits.1 hstep] at h
    obtain ⟨first, others, hsplit, hfirst, hothers⟩ := ih hdepth h hfits.2
    rw [hsplit]
    exact ⟨c :: first, others, rfl, (closing_cons hfits.1 hstep).mpr hfirst, hothers⟩

end Text

end LineScript
