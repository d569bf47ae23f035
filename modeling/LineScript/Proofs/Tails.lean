import LineScript.Proofs.Expressions
import LineScript.Proofs.Unclosed

/-!
# Words with more text after them

A word that is read from a text is read from the text with a filler after it as well: spaces and a
comment. Only quotes and parentheses look further than to the next character, and they make a
difference only if the text leaves them open.
-/
namespace LineScript

open Text

namespace Line

open Phrase

section Quotes

variable {mark : Char} {s body rest : List Char}

theorem pending_quoted {quoting : Quoting} (h : quoting ≠ .outside) (depth : Int) :
    Pending (quoting, depth) :=
  fun houtside => absurd houtside h

theorem pending_inside (mark : Char) (depth : Int) : Pending (.inside mark, depth) :=
  pending_quoted (by simp) depth

theorem pending_escaped (mark : Char) (depth : Int) : Pending (.escaped mark, depth) :=
  pending_quoted (by simp) depth

theorem parenStep_quoted {quoting : Quoting} {c : Char} (h : quoting ≠ .outside) (depth : Int) :
    parenStep (quoting, depth) c = (quoting.next c, depth) := by
  cases quoting with
  | outside => exact absurd rfl h
  | inside _ | escaped _ => rfl

theorem parenStep_inside {c : Char} (hescape : c ≠ '\\') (hc : c ≠ mark) (depth : Int) :
    parenStep (.inside mark, depth) c = (.inside mark, depth) := by
  rw [parenStep_quoted (by simp), Quoting.next, if_neg hescape, if_neg hc]

theorem ne_backslash_of_splitQuoted {c : Char} {found : List Char × List Char}
    (hescape : ∀ d left, c = '\\' → s = d :: left → False)
    (h : splitQuoted mark s = some found) : c ≠ '\\' := by
  rintro rfl
  cases s with
  | nil => cases h
  | cons d left => exact hescape d left rfl rfl

/-- Quotes that close do so with their mark. -/
theorem stays_of_splitQuoted (hmark : mark ≠ '\\') (h : splitQuoted mark s = some (body, rest))
    (depth : Int) :
    Stays (.inside mark, depth) body ∧
      parens (.inside mark, depth) (body ++ [mark]) = (.outside, depth) := by
  fun_induction splitQuoted mark s generalizing body with
  | case1 => cases h
  | case2 c rest ih =>
    obtain ⟨⟨inner, after⟩, hsplit, heq⟩ := Option.map_eq_some_iff.mp h
    obtain ⟨rfl, rfl⟩ := Prod.mk.inj heq
    obtain ⟨hstays, hclosed⟩ := ih hsplit
    refine ⟨stays_cons.mpr ⟨pending_inside _ _, stays_cons.mpr ⟨pending_escaped _ _, ?_⟩⟩, ?_⟩
    · exact hstays
    · exact hclosed
  | case3 rest hescape =>
    obtain ⟨rfl, rfl⟩ := Prod.mk.inj (Option.some.inj h)
    refine ⟨stays_nil.mpr (pending_inside _ _), ?_⟩
    simp [parens, parenStep, Quoting.next, hmark]
  | case4 c rest hescape hc ih =>
    obtain ⟨⟨inner, after⟩, hsplit, heq⟩ := Option.map_eq_some_iff.mp h
    obtain ⟨rfl, rfl⟩ := Prod.mk.inj heq
    obtain ⟨hstays, hclosed⟩ := ih hsplit
    have hc' := ne_backslash_of_splitQuoted hescape hsplit
    have hstep := parenStep_inside hc' hc depth
    constructor
    · rw [stays_cons, hstep]
      exact ⟨pending_inside _ _, hstays⟩
    · change parens (parenStep (.inside mark, depth) c) (inner ++ [mark]) = _
      rw [hstep, hclosed]

/-- Quotes that do not close stay open. -/
theorem stays_of_splitQuoted_none (h : splitQuoted mark s = none) (depth : Int) :
    Stays (.inside mark, depth) s := by
  fun_induction splitQuoted mark s with
  | case1 => exact stays_nil.mpr (pending_inside _ _)
  | case2 c rest ih =>
    rw [Option.map_eq_none_iff] at h
    exact stays_cons.mpr ⟨pending_inside _ _, stays_cons.mpr ⟨pending_escaped _ _, ih h⟩⟩
  | case3 rest hescape => cases h
  | case4 c rest hescape hc ih =>
    rw [Option.map_eq_none_iff] at h
    refine stays_cons.mpr ⟨pending_inside _ _, ?_⟩
    by_cases hc' : c = '\\'
    · subst hc'
      cases rest with
      | nil => exact stays_nil.mpr (pending_escaped _ _)
      | cons d rest => exact absurd rfl (hescape d rest rfl)
    · rw [parenStep_inside hc' hc]
      exact ih h

theorem splitQuoted_mark (hmark : mark ≠ '\\') (s : List Char) :
    splitQuoted mark (mark :: s) = some ([], s) := by
  rw [splitQuoted, if_pos rfl]
  exact fun _ _ heq => absurd heq hmark

/-- Where quotes close, it does not matter what comes after them. -/
theorem splitQuoted_append (hmark : mark ≠ '\\') (h : splitQuoted mark s = some (body, rest))
    (t : List Char) : splitQuoted mark (s ++ t) = some (body, rest ++ t) := by
  fun_induction splitQuoted mark s generalizing body with
  | case1 => cases h
  | case2 c rest ih =>
    obtain ⟨⟨inner, after⟩, hsplit, heq⟩ := Option.map_eq_some_iff.mp h
    obtain ⟨rfl, rfl⟩ := Prod.mk.inj heq
    rw [List.cons_append, List.cons_append, splitQuoted, ih hsplit]
    rfl
  | case3 rest hescape =>
    obtain ⟨rfl, rfl⟩ := Prod.mk.inj (Option.some.inj h)
    rw [List.cons_append, splitQuoted_mark hmark]
  | case4 c rest hescape hc ih =>
    obtain ⟨⟨inner, after⟩, hsplit, heq⟩ := Option.map_eq_some_iff.mp h
    obtain ⟨rfl, rfl⟩ := Prod.mk.inj heq
    have hc' := ne_backslash_of_splitQuoted hescape hsplit
    rw [List.cons_append, splitQuoted_cons hc' hc, ih hsplit]
    rfl

theorem parenStep_mark (h : isQuoteMark mark = true) (depth : Int) :
    parenStep (.outside, depth) mark = (.inside mark, depth) := by
  simp only [isQuoteMark, Bool.or_eq_true, beq_iff_eq] at h
  rcases h with rfl | rfl
  · rfl
  · rfl

theorem ne_backslash_of_isQuoteMark (h : isQuoteMark mark = true) : mark ≠ '\\' := by
  rintro rfl
  cases h

theorem spans_of_splitString (h : splitString s = some (body, rest)) :
    ∃ text, s = text ++ rest ∧ Spans text 0 := by
  cases s with
  | nil => cases h
  | cons mark s =>
    rw [splitString] at h
    split_ifs at h with hmark
    obtain ⟨hstays, hclosed⟩ := stays_of_splitQuoted (ne_backslash_of_isQuoteMark hmark) h 0
    rw [← parenStep_mark hmark] at hstays hclosed
    refine ⟨mark :: (body ++ [mark]), ?_, .closed ?_ hstays hclosed⟩
    · rw [append_of_splitQuoted h]
      simp
    · rintro rfl
      cases hmark

end Quotes

section Brackets

variable {c awaited : Char} {quoting : Quoting} {stack outer s inner after : List Char}

theorem parenStep_opens (h : opensBracket c = true) :
    parenStep (.outside, (stack.count ')' : Int)) c =
      (.outside, ((closerOf c :: stack).count ')' : Int)) := by
  rw [parenStep, next_of_opens h]
  simp only [opensBracket, Bool.or_eq_true, beq_iff_eq] at h
  rcases h with (rfl | rfl) | rfl
  · simp [closerOf]
  · simp [closerOf]
  · simp [closerOf]

theorem parenStep_closes (h : closesBracket c = true) :
    parenStep (.outside, ((c :: stack).count ')' : Int)) c =
      (.outside, (stack.count ')' : Int)) := by
  rw [parenStep, next_of_closes h]
  simp only [closesBracket, Bool.or_eq_true, beq_iff_eq] at h
  rcases h with (rfl | rfl) | rfl
  · simp
  · simp
  · simp

theorem parenStep_other (hopens : ¬ opensBracket c = true) (hcloses : ¬ closesBracket c = true)
    (depth : Int) : parenStep (.outside, depth) c = (Quoting.outside.next c, depth) := by
  have hopen : c ≠ '(' := by
    rintro rfl
    exact hopens rfl
  have hclose : c ≠ ')' := by
    rintro rfl
    exact hcloses rfl
  rw [parenStep, if_neg hopen, if_neg hclose]

theorem pending_of_stack (h : stack.getLast? = some ')') :
    Pending (quoting, (stack.count ')' : Int)) :=
  fun _ => Int.natCast_pos.mpr (List.count_pos_iff.mpr (List.mem_of_getLast? h))

/-- Parentheses that close do so where the last bracket is not awaited any more. -/
theorem stays_of_splitNested (h : splitNested quoting awaited outer s = some (inner, after))
    (hlast : (awaited :: outer).getLast? = some ')') :
    Stays (quoting, ((awaited :: outer).count ')' : Int)) inner ∧
      parens (quoting, ((awaited :: outer).count ')' : Int)) (inner ++ [')']) = (.outside, 0) := by
  have hpending : Pending (quoting, ((awaited :: outer).count ')' : Int)) := pending_of_stack hlast
  fun_induction splitNested quoting awaited outer s generalizing inner with
  | case1 quoting awaited outer => cases h
  | case2 awaited outer c rest hopens ih =>
    obtain ⟨inner', hnested, rfl⟩ := eq_cons_of_map h
    have hlast' : (closerOf c :: awaited :: outer).getLast? = some ')' := by
      rwa [List.getLast?_cons_cons]
    obtain ⟨hstays, hclosed⟩ := ih hnested hlast' (pending_of_stack hlast')
    rw [← parenStep_opens hopens] at hstays hclosed
    exact ⟨stays_cons.mpr ⟨hpending, hstays⟩, hclosed⟩
  | case3 c rest hopens hcloses =>
    obtain ⟨rfl, rfl⟩ := Prod.mk.inj (Option.some.inj h)
    obtain rfl := Option.some.inj hlast
    exact ⟨stays_nil.mpr hpending, rfl⟩
  | case4 c rest hopens hcloses next outer ih =>
    obtain ⟨inner', hnested, rfl⟩ := eq_cons_of_map h
    rw [List.getLast?_cons_cons] at hlast
    obtain ⟨hstays, hclosed⟩ := ih hnested hlast (pending_of_stack hlast)
    rw [← parenStep_closes hcloses] at hstays hclosed
    exact ⟨stays_cons.mpr ⟨hpending, hstays⟩, hclosed⟩
  | case5 awaited outer c rest hopens hcloses hother => cases h
  | case6 awaited outer c rest hopens hcloses ih =>
    obtain ⟨inner', hnested, rfl⟩ := eq_cons_of_map h
    obtain ⟨hstays, hclosed⟩ := ih hnested hlast (pending_of_stack hlast)
    rw [← parenStep_other hopens hcloses] at hstays hclosed
    exact ⟨stays_cons.mpr ⟨hpending, hstays⟩, hclosed⟩
  | case7 quoting awaited outer c rest hquoted ih =>
    obtain ⟨inner', hnested, rfl⟩ := eq_cons_of_map h
    obtain ⟨hstays, hclosed⟩ := ih hnested hlast (pending_of_stack hlast)
    rw [← parenStep_quoted hquoted] at hstays hclosed
    exact ⟨stays_cons.mpr ⟨hpending, hstays⟩, hclosed⟩

theorem splitNested_opens (h : opensBracket c = true) (s : List Char) :
    splitNested .outside awaited outer (c :: s) =
      (splitNested .outside (closerOf c) (awaited :: outer) s).map fun (inner, after) =>
        (c :: inner, after) := by
  conv_lhs => unfold splitNested
  exact if_pos h

theorem splitNested_other (hopens : ¬ opensBracket c = true) (hcloses : ¬ closesBracket c = true)
    (s : List Char) :
    splitNested .outside awaited outer (c :: s) =
      (splitNested (Quoting.outside.next c) awaited outer s).map fun (inner, after) =>
        (c :: inner, after) := by
  conv_lhs => unfold splitNested
  exact (if_neg hopens).trans (if_neg hcloses)

theorem splitNested_mismatch (hopens : ¬ opensBracket c = true) (hcloses : closesBracket c = true)
    (hother : c ≠ awaited) (s : List Char) :
    splitNested .outside awaited outer (c :: s) = none := by
  conv_lhs => unfold splitNested
  exact (if_neg hopens).trans ((if_pos hcloses).trans (if_neg hother))

/-- Where parentheses close, it does not matter what comes after them. -/
theorem splitNested_append (h : splitNested quoting awaited outer s = some (inner, after))
    (t : List Char) : splitNested quoting awaited outer (s ++ t) = some (inner, after ++ t) := by
  fun_induction splitNested quoting awaited outer s generalizing inner with
  | case1 quoting awaited outer => cases h
  | case2 awaited outer c rest hopens ih =>
    obtain ⟨inner', hnested, rfl⟩ := eq_cons_of_map h
    rw [List.cons_append, splitNested_opens hopens, ih hnested]
    rfl
  | case3 c rest hopens hcloses =>
    obtain ⟨rfl, rfl⟩ := Prod.mk.inj (Option.some.inj h)
    rw [List.cons_append, splitNested, if_neg hopens, if_pos hcloses, if_pos rfl]
  | case4 c rest hopens hcloses next outer ih =>
    obtain ⟨inner', hnested, rfl⟩ := eq_cons_of_map h
    rw [List.cons_append, splitNested, if_neg hopens, if_pos hcloses, if_pos rfl, ih hnested]
    rfl
  | case5 awaited outer c rest hopens hcloses hother => cases h
  | case6 awaited outer c rest hopens hcloses ih =>
    obtain ⟨inner', hnested, rfl⟩ := eq_cons_of_map h
    rw [List.cons_append, splitNested_other hopens hcloses, ih hnested]
    rfl
  | case7 quoting awaited outer c rest hquoted ih =>
    obtain ⟨inner', hnested, rfl⟩ := eq_cons_of_map h
    rw [List.cons_append, splitNested, ih hnested]
    · rfl
    · exact hquoted

/-- Parentheses that do not close stay open, or meet a bracket of another kind. -/
theorem stays_of_splitNested_none (h : splitNested quoting awaited outer s = none)
    (hlast : (awaited :: outer).getLast? = some ')') (t : List Char) :
    Stays (quoting, ((awaited :: outer).count ')' : Int)) s ∨
      splitNested quoting awaited outer (s ++ t) = none := by
  have hpending : Pending (quoting, ((awaited :: outer).count ')' : Int)) := pending_of_stack hlast
  fun_induction splitNested quoting awaited outer s with
  | case1 quoting awaited outer => exact Or.inl (stays_nil.mpr hpending)
  | case2 awaited outer c rest hopens ih =>
    rw [Option.map_eq_none_iff] at h
    have hlast' : (closerOf c :: awaited :: outer).getLast? = some ')' := by
      rwa [List.getLast?_cons_cons]
    rw [List.cons_append, splitNested_opens hopens, Option.map_eq_none_iff, stays_cons,
      parenStep_opens hopens]
    exact (ih h hlast' (pending_of_stack hlast')).imp_left fun hstays => ⟨hpending, hstays⟩
  | case3 c rest hopens hcloses => cases h
  | case4 c rest hopens hcloses next outer ih =>
    rw [Option.map_eq_none_iff] at h
    rw [List.getLast?_cons_cons] at hlast
    rw [List.cons_append, splitNested, if_neg hopens, if_pos hcloses, if_pos rfl,
      Option.map_eq_none_iff, stays_cons, parenStep_closes hcloses]
    exact (ih h hlast (pending_of_stack hlast)).imp_left fun hstays => ⟨hpending, hstays⟩
  | case5 awaited outer c rest hopens hcloses hother =>
    exact Or.inr (splitNested_mismatch hopens hcloses hother (rest ++ t))
  | case6 awaited outer c rest hopens hcloses ih =>
    rw [Option.map_eq_none_iff] at h
    rw [List.cons_append, splitNested_other hopens hcloses, Option.map_eq_none_iff, stays_cons,
      parenStep_other hopens hcloses]
    exact (ih h hlast (pending_of_stack hlast)).imp_left fun hstays => ⟨hpending, hstays⟩
  | case7 quoting awaited outer c rest hquoted ih =>
    rw [Option.map_eq_none_iff] at h
    rw [stays_cons, parenStep_quoted hquoted]
    refine (ih h hlast (pending_of_stack hlast)).imp (fun hstays => ⟨hpending, hstays⟩) ?_
    intro hrest
    rw [List.cons_append, splitNested, hrest]
    · rfl
    · exact hquoted

end Brackets

/-- A filler that a line can end with: it starts with a space or a tab, or is empty. -/
structure Trailing (t : List Char) : Prop where
  start : ∀ c ∈ t.head?, isSpace c = true
  filler : skipFiller t = []

/-- A result with more left after it. -/
def behind {α : Type} (t : List Char) (found : α × List Char) : α × List Char :=
  (found.1, found.2 ++ t)

theorem Trailing.head_eq_false {t : List Char} (ht : Trailing t) {P : Char → Bool}
    (hspace : P ' ' = false) (htab : P '\t' = false) : ∀ c ∈ t.head?, P c = false := by
  intro c hc
  have hc' := ht.start c hc
  simp only [isSpace, Bool.or_eq_true, beq_iff_eq] at hc'
  rcases hc' with rfl | rfl
  · exact hspace
  · exact htab

theorem Trailing.head_append_ne {t : List Char} (ht : Trailing t) {d : Char}
    (hd : isSpace d = false) {s : List Char} (h : ∀ c ∈ s.head?, c ≠ d) :
    ∀ c ∈ (s ++ t).head?, c ≠ d := by
  cases s with
  | cons e s => exact h
  | nil =>
    rintro c hc rfl
    exact absurd (ht.start c hc) (by simp [hd])

/-- A text starts with the character, or does not. -/
theorem head_cases (d : Char) (s : List Char) :
    (∃ rest, s = d :: rest) ∨ ∀ c ∈ s.head?, c ≠ d := by
  cases s with
  | nil => exact Or.inr (by simp)
  | cons c rest =>
    by_cases hc : c = d
    · exact Or.inl ⟨rest, by rw [hc]⟩
    · refine Or.inr ?_
      rintro _ ⟨rfl⟩
      exact hc

section Words

variable {t : List Char} {P : Char → Bool}

theorem takeWhile_tail (h : ∀ c ∈ t.head?, P c = false) (s : List Char) :
    (s ++ t).takeWhile P = s.takeWhile P := by
  induction s with
  | nil =>
    cases t with
    | nil => rfl
    | cons c t => exact List.takeWhile_cons_of_neg (by simp [h c rfl])
  | cons c s ih =>
    rw [List.cons_append, List.takeWhile_cons, List.takeWhile_cons, ih]

theorem dropWhile_tail (h : ∀ c ∈ t.head?, P c = false) (s : List Char) :
    (s ++ t).dropWhile P = s.dropWhile P ++ t := by
  induction s with
  | nil =>
    cases t with
    | nil => rfl
    | cons c t => exact List.dropWhile_cons_of_neg (by simp [h c rfl])
  | cons c s ih =>
    rw [List.cons_append, List.dropWhile_cons, List.dropWhile_cons, ih]
    split_ifs
    · rfl
    · rfl

theorem splitUnsigned_of_digits {s whole rest : List Char} (h : splitDigits s = some (whole, rest))
    (hrest : ∀ c ∈ rest.head?, c ≠ '.') : splitUnsigned s = some (whole, rest) := by
  unfold splitUnsigned
  rw [h]
  split
  · rename_i heq
    obtain ⟨rfl, rfl⟩ := Prod.mk.inj (Option.some.inj heq)
    exact absurd rfl (hrest '.' rfl)
  · rfl

theorem splitNumber_unsigned {s : List Char} (h : ∀ c ∈ s.head?, c ≠ '-') :
    splitNumber s = splitUnsigned s := by
  unfold splitNumber
  split
  · exact absurd rfl (h '-' rfl)
  · rfl

theorem splitPathWithin_other {s : List Char} (hpoint : ∀ c ∈ s.head?, c ≠ '.')
    (hcolons : ∀ rest, s ≠ ':' :: ':' :: rest) (n : Nat) : splitPathWithin n s = ([], s) := by
  unfold splitPathWithin
  split
  · rfl
  · exact absurd rfl (hcolons _)
  · exact absurd rfl (hpoint '.' rfl)
  · rfl

theorem not_colons {s : List Char} (h : ∀ c ∈ s.head?, c ≠ ':') (rest : List Char) :
    s ≠ ':' :: ':' :: rest := by
  rintro rfl
  exact h ':' rfl rfl

theorem not_colons_cons {s : List Char} (h : ∀ c ∈ s.head?, c ≠ ':') (d : Char) (rest : List Char) :
    d :: s ≠ ':' :: ':' :: rest := by
  rintro heq
  obtain ⟨_, rfl⟩ := List.cons.inj heq
  exact h ':' rfl rfl

theorem isPlain_of_continuesName {c : Char} (h : continuesName c = true) : isPlain c = true := by
  simp only [isPlain, isQuoteMark, Bool.and_eq_true, Bool.not_eq_true', Bool.or_eq_false_iff,
    beq_eq_false_iff_ne, bne_iff_ne, ne_eq]
  refine ⟨⟨⟨⟨?_, ?_⟩, ?_⟩, ?_⟩, ?_⟩ <;> rintro rfl <;> cases h

theorem spans_name {s name after : List Char} (h : splitName s = some (name, after)) :
    Spans name 0 :=
  .plain fun c hc => isPlain_of_continuesName
    (continuesName_of_isName (isName_of_splitName h) c hc)

theorem spans_method {s name after : List Char} (h : splitName s = some (name, after)) :
    Spans ('.' :: name) 0 := by
  have hpoint : Spans ['.'] 0 := .plain (by simp [isPlain, isQuoteMark])
  exact hpoint.append (Int.le_refl 0) (spans_name h)

theorem spans_of_splitNumber {s chars rest : List Char} (h : splitNumber s = some (chars, rest)) :
    Spans chars 0 := by
  refine .plain fun c hc => ?_
  rcases mem_isNumber (splitNumber_ok h).2 c hc with hc | rfl | rfl
  · exact isPlain_of_continuesName hc
  · rfl
  · rfl

theorem spans_splitPathWithin (n : Nat) (s : List Char) : Spans (splitPathWithin n s).1 0 := by
  have hcolons : Spans [':', ':'] 0 := .plain (by simp [isPlain, isQuoteMark])
  fun_induction splitPathWithin n s with
  | case1 s => exact .nil
  | case2 n rest name after hname path left hpath ih =>
    rw [hpath] at ih
    have hsegment := hcolons.append (Int.le_refl 0) (spans_name hname)
    exact hsegment.append (Int.le_refl 0) ih
  | case3 n rest hname => exact .nil
  | case4 n rest name after hname path left hpath ih =>
    rw [hpath] at ih
    exact (spans_method hname).append (Int.le_refl 0) ih
  | case5 n rest hname => exact .nil
  | case6 n s hcolons hpoint => exact .nil

theorem spans_of_splitModulePath {s chars rest : List Char}
    (h : splitModulePath s = some (chars, rest)) : Spans chars 0 := by
  rw [splitModulePath] at h
  cases hname : splitName s with
  | none =>
    rw [hname] at h
    cases h
  | some found =>
    obtain ⟨name, after⟩ := found
    rw [hname] at h
    obtain ⟨rfl, _⟩ := Prod.mk.inj (Option.some.inj h)
    exact (spans_name hname).append (Int.le_refl 0) (spans_splitPathWithin _ _)

theorem splitCall_bare {s name after : List Char} (h : splitName s = some (name, after))
    (hparen : ∀ c ∈ after.head?, c ≠ '(') : splitCall ('.' :: s) = some ('.' :: name, after) := by
  rw [splitCall, h]
  split
  · rename_i heq
    obtain ⟨rfl, rfl⟩ := Prod.mk.inj (Option.some.inj heq)
    exact absurd rfl (hparen '(' rfl)
  · rename_i heq
    obtain ⟨rfl, rfl⟩ := Prod.mk.inj (Option.some.inj heq)
    rfl
  · rename_i heq
    cases heq

theorem splitCall_none {s : List Char} (h : ∀ c ∈ s.head?, c ≠ '.') : splitCall s = none := by
  unfold splitCall
  split
  · exact absurd rfl (h '.' rfl)
  · rfl

theorem spans_of_splitCall {s call rest : List Char} (h : splitCall s = some (call, rest)) :
    s = call ++ rest ∧ call ≠ [] ∧ Spans call 0 := by
  have hs := (splitCall_ok h).1
  rcases head_cases '.' s with ⟨s, rfl⟩ | hpoint
  · cases hname : splitName s with
    | none =>
      rw [splitCall, hname] at h
      cases h
    | some found =>
      obtain ⟨name, after⟩ := found
      have hbare (heq : some ('.' :: name, after) = some (call, rest)) :
          call ≠ [] ∧ Spans call 0 := by
        obtain ⟨rfl, rfl⟩ := Prod.mk.inj (Option.some.inj heq)
        exact ⟨List.cons_ne_nil _ _, spans_method hname⟩
      refine ⟨hs, ?_⟩
      rcases head_cases '(' after with ⟨after, rfl⟩ | hparen
      · cases hnested : splitNested .outside ')' [] after with
        | none =>
          simp only [splitCall, hname, hnested] at h
          exact hbare h
        | some found =>
          obtain ⟨arguments, left⟩ := found
          simp only [splitCall, hname, hnested] at h
          obtain ⟨rfl, rfl⟩ := Prod.mk.inj (Option.some.inj h)
          obtain ⟨hstays, hclosed⟩ := stays_of_splitNested hnested rfl
          have hparens : Spans ('(' :: (arguments ++ [')'])) 0 := .closed (by decide) hstays hclosed
          refine ⟨List.cons_ne_nil _ _, ?_⟩
          have hcall := (spans_method hname).append (Int.le_refl 0) hparens
          simpa using hcall
      · rw [splitCall_bare hname hparen] at h
        exact hbare h
  · rw [splitCall_none hpoint] at h
    cases h

theorem spans_splitCallsWithin (n : Nat) (s : List Char) : Spans (splitCallsWithin n s).1 0 := by
  induction n generalizing s with
  | zero => exact .nil
  | succ n ih =>
    rw [splitCallsWithin]
    cases hcall : splitCall s with
    | none => exact .nil
    | some found =>
      obtain ⟨call, rest⟩ := found
      exact (spans_of_splitCall hcall).2.2.append (Int.le_refl 0) (ih rest)

theorem spans_of_splitChain {s text rest : List Char} (h : splitChain s = some (text, rest)) :
    Spans text 0 := by
  rw [splitChain] at h
  cases hcall : splitCall s with
  | none =>
    rw [hcall] at h
    cases h
  | some found =>
    obtain ⟨call, left⟩ := found
    rw [hcall] at h
    obtain ⟨rfl, _⟩ := Prod.mk.inj (Option.some.inj h)
    exact (spans_of_splitCall hcall).2.2.append (Int.le_refl 0) (spans_splitCallsWithin _ _)

variable (ht : Trailing t)

include ht

theorem dropText_tail {text : List Char} (htext : ∀ c ∈ text, isSpace c = false) (s : List Char) :
    dropText text (s ++ t) = (dropText text s).map (behind t) := by
  induction text generalizing s with
  | nil => rfl
  | cons c text ih =>
    rw [List.forall_mem_cons] at htext
    cases s with
    | nil =>
      cases t with
      | nil => rfl
      | cons d t =>
        have hcd : c ≠ d := by
          rintro rfl
          exact absurd (ht.start c rfl) (by simp [htext.1])
        exact if_neg hcd
    | cons d s =>
      rw [List.cons_append, dropText, dropText]
      split_ifs
      · exact ih htext.2 s
      · rfl

theorem splitKeyword_tail {text : List Char} (htext : ∀ c ∈ text, isSpace c = false)
    (s : List Char) : splitKeyword text (s ++ t) = (splitKeyword text s).map (behind t) := by
  have hcontinue : ∀ c ∈ t.head?, continuesName c = false := ht.head_eq_false rfl rfl
  unfold splitKeyword
  rw [dropText_tail ht htext]
  cases hdrop : dropText text s with
  | none => rfl
  | some found =>
    obtain ⟨_, rest⟩ := found
    have hhead : ((rest ++ t).head?.map continuesName).getD false =
        (rest.head?.map continuesName).getD false := by
      cases rest with
      | cons c rest => rfl
      | nil =>
        cases t with
        | nil => rfl
        | cons c t => exact hcontinue c rfl
    simp only [Option.map_some, behind, hhead]
    split_ifs
    · rfl
    · rfl

theorem splitName_tail (s : List Char) : splitName (s ++ t) = (splitName s).map (behind t) := by
  have hstart : ∀ c ∈ t.head?, startsName c = false := ht.head_eq_false rfl rfl
  have hcontinue : ∀ c ∈ t.head?, continuesName c = false := ht.head_eq_false rfl rfl
  cases s with
  | nil =>
    cases t with
    | nil => rfl
    | cons c t => exact if_neg (by simp [hstart c rfl])
  | cons c s =>
    rw [List.cons_append, splitName, splitName, takeWhile_tail hcontinue, dropWhile_tail hcontinue]
    split_ifs
    · rfl
    · rfl

theorem splitDigits_tail (s : List Char) :
    splitDigits (s ++ t) = (splitDigits s).map (behind t) := by
  have hdigit : ∀ c ∈ t.head?, c.isDigit = false := ht.head_eq_false rfl rfl
  unfold splitDigits
  rw [takeWhile_tail hdigit, dropWhile_tail hdigit]
  cases s.takeWhile Char.isDigit with
  | nil => rfl
  | cons c digits => rfl

theorem splitUnsigned_tail (s : List Char) :
    splitUnsigned (s ++ t) = (splitUnsigned s).map (behind t) := by
  have htail := splitDigits_tail ht s
  cases hdigits : splitDigits s with
  | none =>
    rw [hdigits] at htail
    simp [splitUnsigned, hdigits, htail]
  | some found =>
    obtain ⟨whole, rest⟩ := found
    rw [hdigits] at htail
    rcases head_cases '.' rest with ⟨rest, rfl⟩ | hpoint
    · unfold splitUnsigned
      rw [hdigits, htail]
      simp only [Option.map_some, behind, List.cons_append, splitDigits_tail ht]
      cases splitDigits rest with
      | none => rfl
      | some fraction => rfl
    · rw [splitUnsigned_of_digits hdigits hpoint,
        splitUnsigned_of_digits htail (ht.head_append_ne rfl hpoint)]
      rfl

theorem splitNumber_tail (s : List Char) :
    splitNumber (s ++ t) = (splitNumber s).map (behind t) := by
  rcases head_cases '-' s with ⟨rest, rfl⟩ | hsign
  · rw [List.cons_append, splitNumber, splitNumber, splitUnsigned_tail ht]
    cases splitUnsigned rest with
    | none => rfl
    | some number => rfl
  · rw [splitNumber_unsigned hsign, splitNumber_unsigned (ht.head_append_ne rfl hsign),
      splitUnsigned_tail ht]

/-- The bound is not met, be it for the text alone or with a filler after it. -/
theorem splitPathWithin_tail {n : Nat} {s : List Char} (hn : s.length ≤ n) (k : Nat) :
    splitPathWithin (n + k) (s ++ t) = behind t (splitPathWithin n s) := by
  have hother {s : List Char} (hpoint : ∀ c ∈ s.head?, c ≠ '.')
      (hcolons : ∀ rest, s ≠ ':' :: ':' :: rest) (hcolons' : ∀ rest, s ++ t ≠ ':' :: ':' :: rest)
      (n k : Nat) : splitPathWithin (n + k) (s ++ t) = behind t (splitPathWithin n s) := by
    rw [splitPathWithin_other hpoint hcolons,
      splitPathWithin_other (ht.head_append_ne rfl hpoint) hcolons']
    rfl
  induction n generalizing s with
  | zero =>
    obtain rfl := List.length_eq_zero_iff.mp (Nat.le_zero.mp hn)
    have hhead : ∀ c ∈ ([] : List Char).head?, c ≠ ':' := by simp
    exact hother (by simp) (not_colons hhead) (not_colons (ht.head_append_ne rfl hhead)) 0 k
  | succ n ih =>
    have hafter {rest name after : List Char} (hrest : rest.length ≤ n)
        (hname : splitName rest = some (name, after)) :
        splitPathWithin (n + k) (after ++ t) = behind t (splitPathWithin n after) := by
      refine ih (Nat.le_trans ?_ hrest)
      rw [append_of_splitName hname, List.length_append]
      exact Nat.le_add_left _ _
    rcases head_cases '.' s with ⟨rest, rfl⟩ | hpoint
    · rw [Nat.succ_add, List.cons_append, splitPathWithin, splitPathWithin, splitName_tail ht]
      cases hname : splitName rest with
      | none => rfl
      | some found =>
        obtain ⟨name, after⟩ := found
        simp only [Option.map_some, behind, hafter (Nat.le_of_succ_le_succ hn) hname]
    rcases head_cases ':' s with ⟨rest, rfl⟩ | hcolon
    · rcases head_cases ':' rest with ⟨rest, rfl⟩ | hcolon
      · rw [Nat.succ_add, List.cons_append, List.cons_append, splitPathWithin, splitPathWithin,
          splitName_tail ht]
        cases hname : splitName rest with
        | none => rfl
        | some found =>
          obtain ⟨name, after⟩ := found
          have hrest : rest.length ≤ n := Nat.le_of_succ_le (Nat.le_of_succ_le_succ hn)
          simp only [Option.map_some, behind, hafter hrest hname]
      · exact hother hpoint (not_colons_cons hcolon _)
          (not_colons_cons (ht.head_append_ne rfl hcolon) _) _ _
    · exact hother hpoint (not_colons hcolon) (not_colons (ht.head_append_ne rfl hcolon)) _ _

theorem splitModulePath_tail (s : List Char) :
    splitModulePath (s ++ t) = (splitModulePath s).map (behind t) := by
  unfold splitModulePath
  rw [splitName_tail ht]
  cases hname : splitName s with
  | none => rfl
  | some found =>
    obtain ⟨name, after⟩ := found
    have hpath := splitPathWithin_tail ht (Nat.le_refl after.length) t.length
    rw [← List.length_append] at hpath
    simp only [Option.map_some, behind, hpath]

theorem splitString_tail (s : List Char) :
    Doomed s ∨ splitString (s ++ t) = (splitString s).map (behind t) := by
  cases s with
  | nil =>
    cases t with
    | nil => exact Or.inr rfl
    | cons c t =>
      have hmark : isQuoteMark c = false := ht.head_eq_false rfl rfl c rfl
      exact Or.inr (if_neg (by simp [hmark]))
  | cons mark s =>
    rw [List.cons_append, splitString, splitString]
    split_ifs with hmark
    · cases hquoted : splitQuoted mark s with
      | some found =>
        exact Or.inr (splitQuoted_append (ne_backslash_of_isQuoteMark hmark) hquoted t)
      | none =>
        refine Or.inl ⟨[], 0, mark :: s, rfl, .nil, Int.le_refl 0, mark, s, rfl, ?_⟩
        rw [parenStep_mark hmark]
        exact stays_of_splitQuoted_none hquoted 0
    · exact Or.inr rfl

/-- Arguments that do not close may do so in a comment after them; but then the call is doomed. -/
theorem splitCall_tail (s : List Char) :
    Doomed s ∨ splitCall (s ++ t) = (splitCall s).map (behind t) := by
  rcases head_cases '.' s with ⟨rest, rfl⟩ | hpoint
  · have htail := splitName_tail ht rest
    cases hname : splitName rest with
    | none =>
      rw [hname] at htail
      simp [splitCall, hname, htail]
    | some found =>
      obtain ⟨name, after⟩ := found
      rw [hname] at htail
      rcases head_cases '(' after with ⟨after, rfl⟩ | hparen
      · cases hnested : splitNested .outside ')' [] after with
        | some found =>
          have hnested' := splitNested_append hnested t
          simp only [Option.map_some, behind, List.cons_append] at htail
          simp [splitCall, hname, htail, hnested, hnested', behind]
        | none =>
          rcases stays_of_splitNested_none hnested rfl t with hstays | hnested'
          · refine Or.inl ⟨'.' :: name, 0, '(' :: after, ?_, spans_method hname, Int.le_refl 0,
              '(', after, rfl, hstays⟩
            rw [append_of_splitName hname, List.cons_append]
          · simp only [Option.map_some, behind, List.cons_append] at htail
            simp [splitCall, hname, htail, hnested, hnested', behind]
      · rw [splitCall_bare hname hparen, List.cons_append,
          splitCall_bare htail (ht.head_append_ne rfl hparen)]
        exact Or.inr rfl
  · rw [splitCall_none hpoint, splitCall_none (ht.head_append_ne rfl hpoint)]
    exact Or.inr rfl

theorem splitCallsWithin_tail {n : Nat} {s : List Char} (hn : s.length ≤ n) (k : Nat) :
    Doomed s ∨ splitCallsWithin (n + k) (s ++ t) = behind t (splitCallsWithin n s) := by
  induction n generalizing s with
  | zero =>
    obtain rfl := List.length_eq_zero_iff.mp (Nat.le_zero.mp hn)
    have hnone : splitCall ([] ++ t) = none := splitCall_none (ht.head_append_ne rfl (by simp))
    refine Or.inr ?_
    cases k with
    | zero => rfl
    | succ k =>
      simp only [splitCallsWithin, hnone, behind]
  | succ n ih =>
    rcases splitCall_tail ht s with hdoomed | htail
    · exact Or.inl hdoomed
    rw [Nat.succ_add, splitCallsWithin, splitCallsWithin, htail]
    cases hcall : splitCall s with
    | none => exact Or.inr rfl
    | some found =>
      obtain ⟨call, rest⟩ := found
      obtain ⟨rfl, hne, hspans⟩ := spans_of_splitCall hcall
      have hpos := List.length_pos_iff.mpr hne
      rw [List.length_append] at hn
      rcases ih (show rest.length ≤ n by omega) with hdoomed | hrest
      · exact Or.inl (doomed_append hspans (Int.le_refl 0) hdoomed)
      · refine Or.inr ?_
        simp only [Option.map_some, behind, hrest]

theorem splitChain_tail (s : List Char) :
    Doomed s ∨ splitChain (s ++ t) = (splitChain s).map (behind t) := by
  rcases splitCall_tail ht s with hdoomed | htail
  · exact Or.inl hdoomed
  rw [splitChain, splitChain, htail]
  cases hcall : splitCall s with
  | none => exact Or.inr rfl
  | some found =>
    obtain ⟨call, rest⟩ := found
    obtain ⟨rfl, _, hspans⟩ := spans_of_splitCall hcall
    rcases splitCallsWithin_tail ht (Nat.le_refl rest.length) t.length with hdoomed | hrest
    · exact Or.inl (doomed_append hspans (Int.le_refl 0) hdoomed)
    · refine Or.inr ?_
      rw [← List.length_append] at hrest
      simp only [Option.map_some, behind, hrest]

end Words

end Line

end LineScript
