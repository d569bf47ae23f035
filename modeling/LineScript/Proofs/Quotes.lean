import LineScript.Proofs.Laid
import LineScript.Proofs.Literals
import LineScript.Proofs.Written
import Mathlib.Algebra.Ring.Parity
import Mathlib.Data.List.DropRight

/-!
# Quoted strings

A string is quoted so that it is read back as it was, and so that every reader of a line or of a
program passes over it as a whole: the grammar ends it at its own closing mark, and the scans for
brackets, commas and braces go on behind it as if it were not there.
-/
namespace LineScript

open Text Layout

namespace Text

/-- Every character of the text is met inside quotes, and then the quoting is `after`. -/
inductive Quoting.Covers : Quoting → List Char → Quoting → Prop
  | nil (quoting : Quoting) : Covers quoting [] quoting
  | cons {quoting after : Quoting} {c : Char} {rest : List Char} (h : quoting ≠ .outside)
      (hrest : Covers (quoting.next c) rest after) : Covers quoting (c :: rest) after

section Covered

variable {quoting middle after : Quoting} {t u : List Char}

theorem Quoting.Covers.append (ht : Covers quoting t middle) (hu : Covers middle u after) :
    Covers quoting (t ++ u) after := by
  induction ht with
  | nil => exact hu
  | cons h _ ih => exact .cons h (ih hu)

theorem splitClosing_covered (h : quoting.Covers t after) (depth : Nat) (rest : List Char) :
    splitClosing quoting depth (t ++ rest) =
      (splitClosing after depth rest).map (Prod.map (t ++ ·) id) := by
  induction h with
  | nil => exact Option.map_id'.symm
  | cons hquoted _ ih =>
    rw [List.cons_append, splitClosing_quoted _ _ hquoted, ih, Option.map_map]
    rfl

theorem splitCommas_quoted (h : quoting ≠ .outside) (depth : Nat) (c : Char) (rest : List Char) :
    splitCommas quoting depth (c :: rest) =
      (splitCommas (quoting.next c) depth rest).modifyHead (c :: ·) := by
  cases quoting with
  | outside => exact absurd rfl h
  | inside mark => rfl
  | escaped mark => rfl

theorem splitCommas_covered (h : quoting.Covers t after) (depth : Nat) (rest : List Char) :
    splitCommas quoting depth (t ++ rest) =
      (splitCommas after depth rest).modifyHead (t ++ ·) := by
  induction h with
  | nil => exact (congrFun List.modifyHead_id _).symm
  | cons hquoted _ ih =>
    rw [List.cons_append, splitCommas_quoted hquoted, ih, List.modifyHead_modifyHead]
    rfl

theorem scanFrom_covered (h : quoting.Covers t after) (braces : Braces) (rest : List Char) :
    scanFrom quoting braces (t ++ rest) = scanFrom after braces rest := by
  induction h with
  | nil => rfl
  | cons hquoted _ ih => rw [List.cons_append, scanFrom_cons_quoted hquoted, ih]

end Covered

end Text

namespace Perl

/-- A character that has no place of its own in a quoted string. -/
def isEscaped (c : Char) : Bool :=
  ['\n', '\t', '\r', '\\', '"', '$', '@'].contains c

theorem quoteChar_spelled (c : Char) :
    (quoteChar c = [c] ∧ isEscaped c = false) ∨
      ∃ d, quoteChar c = ['\\', d] ∧ d ≠ '\n' ∧ d ≠ '\t' ∧ d ≠ '\r' := by
  unfold quoteChar
  split_ifs with hfeed htab hreturn hsign
  · exact Or.inr ⟨'n', rfl, by decide⟩
  · exact Or.inr ⟨'t', rfl, by decide⟩
  · exact Or.inr ⟨'r', rfl, by decide⟩
  · exact Or.inr ⟨c, rfl, hfeed, htab, hreturn⟩
  · simp only [not_or] at hsign
    exact Or.inl ⟨rfl, by simp [isEscaped, hfeed, htab, hreturn, hsign]⟩

theorem quoteBody_append (s t : List Char) :
    quoteBody (s ++ t) = quoteBody s ++ quoteBody t :=
  List.flatMap_append

/-- The closing mark is the first one that is not escaped. -/
theorem covers_quoteBody (s : List Char) :
    (Quoting.inside '"').Covers (quoteBody s) (.inside '"') := by
  induction s with
  | nil => exact .nil _
  | cons c s ih =>
    rw [quoteBody_cons]
    refine Quoting.Covers.append ?_ ih
    rcases quoteChar_cases c with ⟨hchar, hslash, hmark, _⟩ | ⟨d, hchar, _, _⟩
    · have hnext : (Quoting.inside '"').next c = .inside '"' := by
        rw [Quoting.next, if_neg hslash, if_neg hmark]
      rw [hchar]
      refine .cons (by decide) ?_
      rw [hnext]
      exact .nil _
    · rw [hchar]
      exact .cons (by decide) (.cons (by decide) (.nil _))

theorem covers_closed (s : List Char) :
    (Quoting.inside '"').Covers (quoteBody s ++ ['"']) .outside :=
  (covers_quoteBody s).append (.cons (by decide) (.nil _))

section Scans

variable (s : String) (rest : List Char)

theorem splitClosing_quote (depth : Nat) :
    splitClosing .outside depth ((quote s).toList ++ rest) =
      (splitClosing .outside depth rest).map (Prod.map ((quote s).toList ++ ·) id) := by
  rw [toList_quote, List.cons_append, splitClosing_other _ _ (by decide) (by decide)]
  change Option.map _ (splitClosing (.inside '"') depth _) = _
  rw [splitClosing_covered (covers_closed s.toList), Option.map_map]
  rfl

theorem splitCommas_quote (depth : Nat) :
    splitCommas .outside depth ((quote s).toList ++ rest) =
      (splitCommas .outside depth rest).modifyHead ((quote s).toList ++ ·) := by
  have hmark (text : List Char) : splitCommas .outside depth ('"' :: text) =
      (splitCommas (.inside '"') depth text).modifyHead ('"' :: ·) := by
    rw [splitCommas, if_neg (by simp)]
    rfl
  rw [toList_quote, List.cons_append, hmark, splitCommas_covered (covers_closed s.toList),
    List.modifyHead_modifyHead]
  rfl

theorem scanFrom_quote (braces : Braces) :
    scanFrom .outside braces ((quote s).toList ++ rest) = scanFrom .outside braces rest := by
  rw [toList_quote, List.cons_append, scanFrom_cons_outside,
    Braces.count_other braces (by decide) (by decide)]
  exact scanFrom_covered (covers_closed s.toList) braces rest

end Scans

section Signs

/-- The number of backslashes that a text ends with. -/
def endingSlashes (t : List Char) : Nat :=
  (t.rtakeWhile (· == '\\')).length

theorem endingSlashes_slash (t : List Char) :
    endingSlashes (t ++ ['\\']) = endingSlashes t + 1 := by
  rw [endingSlashes, List.rtakeWhile_concat_pos _ _ _ (by rfl), List.length_append]
  rfl

theorem endingSlashes_other {c : Char} (h : c ≠ '\\') (t : List Char) :
    endingSlashes (t ++ [c]) = 0 := by
  rw [endingSlashes, List.rtakeWhile_concat_neg _ _ _ (by simpa using h)]
  rfl

/-- Backslashes that stand for themselves come in pairs. -/
theorem even_endingSlashes (s : List Char) : Even (endingSlashes (quoteBody s)) := by
  induction s using List.reverseRecOn with
  | nil => exact Even.zero
  | append_singleton s c ih =>
    have hlast : quoteBody [c] = quoteChar c := List.append_nil _
    rw [quoteBody_append, hlast]
    rcases quoteChar_cases c with ⟨hchar, hslash, _⟩ | ⟨d, hchar, _, _⟩
    · rw [hchar, endingSlashes_other hslash]
      exact Even.zero
    · have hpair : quoteBody s ++ ['\\', d] = (quoteBody s ++ ['\\']) ++ [d] := by simp
      rw [hchar, hpair]
      by_cases hd : d = '\\'
      · rw [hd, endingSlashes_slash, endingSlashes_slash]
        exact ih.add even_two
      · rw [endingSlashes_other hd]
        exact Even.zero

/-- A sign that has to be escaped stands behind the backslash that escapes it. -/
theorem front_of_escaped {c : Char} (hc : isEscaped c = true) (hslash : c ≠ '\\')
    {s front back : List Char} (h : quoteBody s = front ++ c :: back) :
    ∃ before, front = quoteBody before ++ ['\\'] := by
  induction s generalizing front with
  | nil =>
    have hnil : front ++ c :: back = [] := h.symm
    simp at hnil
  | cons a s ih =>
    rw [quoteBody_cons] at h
    rcases quoteChar_spelled a with ⟨hchar, hplain⟩ | ⟨d, hchar, _⟩
    · rw [hchar, List.singleton_append] at h
      cases front with
      | nil =>
        obtain ⟨rfl, _⟩ := List.cons.inj h
        rw [hplain] at hc
        cases hc
      | cons first front =>
        obtain ⟨rfl, hrest⟩ := List.cons.inj h
        obtain ⟨before, rfl⟩ := ih hrest
        exact ⟨a :: before, by rw [quoteBody_cons, hchar]; rfl⟩
    · rw [hchar, List.cons_append, List.singleton_append] at h
      cases front with
      | nil => exact absurd (List.cons.inj h).1.symm hslash
      | cons first front =>
        obtain ⟨rfl, htail⟩ := List.cons.inj h
        cases front with
        | nil => exact ⟨[], rfl⟩
        | cons second front =>
          obtain ⟨rfl, hrest⟩ := List.cons.inj htail
          obtain ⟨before, rfl⟩ := ih hrest
          exact ⟨a :: before, by rw [quoteBody_cons, hchar]; rfl⟩

theorem odd_endingSlashes {c : Char} (hc : c = '"' ∨ c = '$' ∨ c = '@') {s front back : List Char}
    (h : quoteBody s = front ++ c :: back) : Odd (endingSlashes front) := by
  have hescaped : isEscaped c = true ∧ c ≠ '\\' := by
    rcases hc with rfl | rfl | rfl
    · exact ⟨rfl, by decide⟩
    · exact ⟨rfl, by decide⟩
    · exact ⟨rfl, by decide⟩
  obtain ⟨before, rfl⟩ := front_of_escaped hescaped.1 hescaped.2 h
  rw [endingSlashes_slash]
  exact (even_endingSlashes before).add_one

theorem lineless_quoteBody {s : List Char} {c : Char} (h : c ∈ quoteBody s) :
    c ≠ '\n' ∧ c ≠ '\t' ∧ c ≠ '\r' := by
  obtain ⟨a, _, hmem⟩ := List.mem_flatMap.mp h
  rcases quoteChar_spelled a with ⟨hchar, hplain⟩ | ⟨d, hchar, hd⟩
  · rw [hchar, List.mem_singleton] at hmem
    subst hmem
    refine ⟨?_, ?_, ?_⟩ <;> rintro rfl <;> cases hplain
  · rw [hchar, List.mem_pair] at hmem
    rcases hmem with rfl | rfl
    · decide
    · exact hd

end Signs

/-- A quoted string is its body between two marks. The body is resolved to the string itself, holds
no line character and no mark or sigil that is not escaped; the grammar takes the quoted string
and nothing more; and the scans for the end of a call, for commas and for braces go on behind it as
if they had not met it, at whatever depth. -/
theorem quote_faithful (s t : String) :
    ∃ body : String, quote s = "\"" ++ body ++ "\"" ∧ unescape body = s ∧
      (∀ c ∈ body.toList, c ≠ '\n' ∧ c ≠ '\t' ∧ c ≠ '\r') ∧
      (∀ front c back, body.toList = front ++ c :: back → (c = '"' ∨ c = '$' ∨ c = '@') →
        Odd (endingSlashes front)) ∧
      Line.splitString (quote s ++ t).toList = some (body.toList, t.toList) ∧
      (∀ depth, splitClosing .outside depth (quote s ++ t).toList =
        (splitClosing .outside depth t.toList).map (Prod.map ((quote s).toList ++ ·) id)) ∧
      (∀ depth, splitCommas .outside depth (quote s ++ t).toList =
        (splitCommas .outside depth t.toList).modifyHead ((quote s).toList ++ ·)) ∧
      ∀ braces, scanFrom .outside braces (quote s ++ t).toList =
        scanFrom .outside braces t.toList := by
  refine ⟨String.ofList (quoteBody s.toList), ?_, ?_, ?_, ?_, ?_, ?_, ?_, ?_⟩
  · apply String.toList_injective
    simp [toList_quote]
  · rw [unescape, String.toList_ofList, unescapeChars_quoteBody, String.ofList_toList]
  · intro c hc
    rw [String.toList_ofList] at hc
    exact lineless_quoteBody hc
  · intro front c back hsplit hc
    rw [String.toList_ofList] at hsplit
    exact odd_endingSlashes hc hsplit
  · rw [String.toList_append, String.toList_ofList, Line.splitString_quote]
  · intro depth
    rw [String.toList_append, splitClosing_quote]
  · intro depth
    rw [String.toList_append, splitCommas_quote]
  · intro braces
    rw [String.toList_append, scanFrom_quote]

end Perl

end LineScript
