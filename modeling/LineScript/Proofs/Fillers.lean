import LineScript.Proofs.Steady

/-!
# Constructs with a filler after them

Every phrase of the grammar reads the same from a line and from the line with a filler after it, so
that a line keeps its construct when spaces or a comment are put after it.
-/
namespace LineScript.Line

open Text Phrase

variable {t : List Char} (ht : Trailing t) (n : Nat)

include ht

section Words

theorem word_steady {read : List Char → Option (List Char × List Char)}
    (hspans : ∀ {s chars rest : List Char}, read s = some (chars, rest) →
      s = chars ++ rest ∧ Spans chars 0)
    (hread : ∀ s, Doomed s ∨ read (s ++ t) = (read s).map (behind t)) :
    Steady t n 0 (word read) (word read) := by
  refine .named (.token ht (fun {s rest text} h => ?_) fun s => (hread s).imp_right fun h => ?_)
  · obtain ⟨⟨chars, left⟩, hsplit, heq⟩ := Option.map_eq_some_iff.mp h
    obtain ⟨_, rfl⟩ := Prod.mk.inj heq
    exact ⟨chars, hspans hsplit⟩
  · rw [h]
    cases read s with
    | none => rfl
    | some found => rfl

theorem name_steady : Steady t n 0 name name :=
  word_steady ht n (fun h => ⟨append_of_splitName h, spans_name h⟩)
    fun s => Or.inr (splitName_tail ht s)

theorem modulePath_steady : Steady t n 0 modulePath modulePath :=
  word_steady ht n (fun h => ⟨append_of_splitModulePath h, spans_of_splitModulePath h⟩)
    fun s => Or.inr (splitModulePath_tail ht s)

theorem number_steady : Steady t n 0 number number :=
  word_steady ht n (fun h => ⟨(splitNumber_ok h).1, spans_of_splitNumber h⟩)
    fun s => Or.inr (splitNumber_tail ht s)

theorem chain_steady : Steady t n 0 chain chain :=
  word_steady ht n (fun h => ⟨(splitChain_ok h).1, spans_of_splitChain h⟩) (splitChain_tail ht)

theorem string_steady : Steady t n 0 string string := by
  refine .named (.token ht (fun {s rest text} h => ?_) fun s => ?_)
  · obtain ⟨⟨body, left⟩, hsplit, heq⟩ := Option.map_eq_some_iff.mp h
    obtain ⟨_, rfl⟩ := Prod.mk.inj heq
    exact spans_of_splitString hsplit
  · refine (splitString_tail ht s).imp_right fun h => ?_
    rw [h]
    cases splitString s with
    | none => rfl
    | some found => rfl

omit ht in
theorem spans_keyword {text : String} (htext : isSign text = true) {s rest : List Char} {u : Unit}
    (h : splitKeyword text.toList s = some (u, rest)) :
    ∃ front, s = front ++ rest ∧ Spans front 0 :=
  ⟨text.toList, append_of_splitKeyword h, (spans_sign htext).1⟩

theorem keyword_tail {text : String} (htext : isSign text = true) (s : List Char) :
    splitKeyword text.toList (s ++ t) = (splitKeyword text.toList s).map (behind t) :=
  splitKeyword_tail ht (spans_sign htext).2.2 s

theorem keyword_steady {text : String} (htext : isSign text = true) :
    Steady t n 0 (keyword text) (keyword text) :=
  .named (.token ht (fun h => spans_keyword htext h) fun s => Or.inr (keyword_tail ht htext s))

theorem truth_steady : Steady t n 0 truth truth := by
  have htrue : isSign "true" = true := by decide
  have hfalse : isSign "false" = true := by decide
  refine .named (.token ht (fun {s rest value} h => ?_) fun s => Or.inr ?_)
  · cases hsplit : splitKeyword "true".toList s with
    | some found =>
      rw [hsplit] at h
      obtain ⟨_, rfl⟩ := Prod.mk.inj (Option.some.inj h)
      exact spans_keyword htrue hsplit
    | none =>
      rw [hsplit] at h
      obtain ⟨⟨_, left⟩, hsplit', heq⟩ := Option.map_eq_some_iff.mp h
      obtain ⟨_, rfl⟩ := Prod.mk.inj heq
      exact spans_keyword hfalse hsplit'
  · rw [keyword_tail ht htrue, keyword_tail ht hfalse]
    cases splitKeyword "true".toList s with
    | some found => rfl
    | none =>
      cases splitKeyword "false".toList s with
      | some found => rfl
      | none => rfl

theorem undefinedWord_steady : Steady t n 0 undefinedWord undefinedWord := by
  have hundef : isSign "undef" = true := by decide
  have hnull : isSign "null" = true := by decide
  refine .named (.token ht (fun {s rest u} h => ?_) fun s => Or.inr ?_)
  · cases hsplit : splitKeyword "undef".toList s with
    | some found =>
      rw [hsplit] at h
      exact spans_keyword hundef (hsplit.trans h)
    | none =>
      rw [hsplit] at h
      exact spans_keyword hnull h
  · rw [keyword_tail ht hundef, keyword_tail ht hnull]
    cases splitKeyword "undef".toList s with
    | some found => rfl
    | none => rfl

end Words

section Lists

variable {n} {α : Type} {p q : Phrase α} (h : Steady t n 0 p q)

include h

theorem commaSeparated_steady : Steady t n 0 (commaSeparated p) (commaSeparated q) := by
  have hnext : Steady t n 0 (do symbol ","; p) (do symbol ","; q) :=
    .sign_bind ht (by decide) (Nat.le_succ n) h
  have hlength {s rest : List Char} {a : α}
      (hreads : (do symbol ","; p : Phrase α).Reads s a rest) : rest.length < s.length := by
    obtain ⟨_, mid, hcomma, hp⟩ := reads_bind hreads
    exact Nat.lt_of_le_of_lt (h.length_le hp) (length_lt_of_symbol (by simp) hcomma)
  exact h.bind fun first => (hnext.many hlength).bind fun others => .pure (first :: others)

theorem entries_steady : Steady t n 0 (entries p) (entries q) :=
  have hcomma : Steady t n 0 (symbol ",") (symbol ",") := .sign ht (by decide)
  have hall := (commaSeparated_steady ht h).bind fun all => hcomma.optional.bind fun _ => .pure all
  hall.optional.bind fun all => .pure (all.getD [])

theorem inParentheses_steady :
    Steady t n 0
      (do
        symbol "("
        let inside ← optional p
        symbol ")"
        return inside)
      (do
        symbol "("
        let inside ← optional q
        symbol ")"
        return inside) :=
  .opening ht (Nat.le_succ n) (h.optional.bind fun inside =>
    .closing ht (Nat.le_succ n) (.pure inside))

theorem operand_steady : Steady t n 0 (operand p) (operand q) :=
  ((inParentheses_steady ht h).either (h.map some)).optional.bind fun operand =>
    .pure (operand.getD none)

end Lists

section Values

variable {n} {item item' : Phrase Literal} {argument argument' : Phrase Expression}

theorem listOf_steady (h : Steady t n 0 item item') :
    Steady t (n + 1) 0 (listOf item) (listOf item') :=
  .named (.sign_bind ht (by decide) (Nat.le_refl _) ((entries_steady ht h).bind fun items =>
    .sign_bind ht (by decide) (Nat.le_succ n) (.pure items)))

theorem field_steady (h : Steady t n 0 item item') : Steady t n 0 (field item) (field item') :=
  .named (((string_steady ht n).either (name_steady ht n)).bind fun key =>
    ((Steady.sign ht (by decide)).either (.sign ht (by decide))).bind fun _ =>
      h.bind fun value => .pure (key, value))

theorem objectOf_steady (h : Steady t n 0 item item') :
    Steady t (n + 1) 0 (objectOf item) (objectOf item') :=
  .named (.sign_bind ht (by decide) (Nat.le_refl _)
    ((entries_steady ht (field_steady ht h)).bind fun fields =>
      .sign_bind ht (by decide) (Nat.le_succ n) (.pure fields)))

theorem literalWithin_steady (depth extra : Nat) :
    Steady t depth 0 (literalWithin depth) (literalWithin (depth + extra)) := by
  induction depth with
  | zero => exact .of_zero (n := 0) .absent
  | succ depth ih =>
    rw [Nat.succ_add]
    exact .named (((string_steady ht _).map _).either (((number_steady ht _).map _).either
      (((truth_steady ht _).map _).either (((undefinedWord_steady ht _).map _).either
        (((listOf_steady ht ih).map _).either ((objectOf_steady ht ih).map _))))))

theorem literal_steady : Steady t n 0 literal literal :=
  .bounded fun depth extra => (literalWithin_steady ht depth extra).mono (Nat.min_le_left _ _)

theorem methodValue_steady : Steady t n 0 methodValue methodValue :=
  .named ((name_steady ht n).bind fun receiver => (chain_steady ht n).bind fun calls =>
    .pure (receiver, calls))

theorem commandLine_steady : Steady t n 0 commandLine commandLine :=
  .named ((keyword_steady ht n (by decide)).bind fun _ => .opening ht (Nat.le_succ n)
    (.closing ht (Nat.le_succ n) (.pure _)))

theorem routineCall_steady (h : Steady t n 0 argument argument') :
    Steady t (n + 1) 0 (routineCall argument) (routineCall argument') :=
  .named ((name_steady ht _).bind fun routine => .opening ht (Nat.le_refl _)
    ((commaSeparated_steady ht h).optional.bind fun arguments =>
      .closing ht (Nat.le_succ n) (.pure (Expression.routine routine (arguments.getD [])))))

theorem valueWithin_steady (depth extra : Nat) :
    Steady t depth 0 (valueWithin depth) (valueWithin (depth + extra)) := by
  induction depth with
  | zero => exact .of_zero (n := 0) .absent
  | succ depth ih =>
    rw [Nat.succ_add]
    exact .named ((commandLine_steady ht).either (((methodValue_steady ht).map _).either
      ((routineCall_steady ht ih).either (((literal_steady ht).map _).either
        (.named ((name_steady ht _).map _))))))

theorem value_steady : Steady t n 0 value value :=
  .bounded fun depth extra => (valueWithin_steady ht depth extra).mono (Nat.min_le_left _ _)

end Values

section Lines

theorem typeName_steady : Steady t n 0 typeName typeName := by
  have helement : Steady t n 0
      (do
        symbol "<"
        let element ← name
        symbol ">"
        return element)
      (do
        symbol "<"
        let element ← name
        symbol ">"
        return element) :=
    .sign_bind ht (by decide) (Nat.le_succ n) ((name_steady ht n).bind fun _ =>
      .sign_bind ht (by decide) (Nat.le_succ n) (.pure _))
  exact .named ((name_steady ht n).bind fun _ => helement.optional.bind fun _ => .pure _)

theorem importedNames_steady : Steady t n 0 importedNames importedNames :=
  (Steady.named ((Steady.sign ht (by decide)).map _)).either
    (.named (.sign_bind ht (by decide) (Nat.le_succ n)
      ((commaSeparated_steady ht (name_steady ht n)).bind fun _ =>
        .sign_bind ht (by decide) (Nat.le_succ n) (.pure _))))

theorem importLine_steady : Steady t n 0 importLine importLine :=
  .named ((keyword_steady ht n (by decide)).bind fun _ => (importedNames_steady ht n).bind fun _ =>
    (keyword_steady ht n (by decide)).bind fun _ => (modulePath_steady ht n).bind fun _ => .pure _)

theorem packageLine_steady : Steady t n 0 packageLine packageLine :=
  .named ((keyword_steady ht n (by decide)).bind fun _ => (modulePath_steady ht n).bind fun _ =>
    .pure _)

theorem parameter_steady : Steady t n 0 parameter parameter :=
  .named (((typeName_steady ht n).bind fun _ => (name_steady ht n).bind fun _ =>
    .pure _).either ((name_steady ht n).map _))

theorem routineLine_steady : Steady t n 0 routineLine routineLine := by
  have hparameters : Steady t n 0 parameters parameters :=
    .named (commaSeparated_steady ht (parameter_steady ht n))
  have hreturns : Steady t n 0 returns returns :=
    .named (.sign_bind ht (by decide) (Nat.le_succ n) (typeName_steady ht n))
  exact .named ((keyword_steady ht n (by decide)).bind fun _ =>
    (name_steady ht n).optional.bind fun _ => .opening ht (Nat.le_succ n)
      (hparameters.optional.bind fun _ => .closing ht (Nat.le_succ n)
        (hreturns.optional.bind fun _ => .sign_bind ht (by decide) (Nat.le_succ n) (.pure _))))

theorem returnLine_steady : Steady t n 0 returnLine returnLine :=
  .named ((keyword_steady ht n (by decide)).bind fun _ =>
    (commaSeparated_steady ht (value_steady ht)).optional.bind fun _ => .pure _)

/-- The lines that test a value. -/
theorem tested_steady {word : String} (hword : isSign word = true) (branch : Branch) :
    Steady t n 0
      (do
        keyword word
        let tested ← value
        symbol "\x7b"
        return Construct.condition branch (some tested))
      (do
        keyword word
        let tested ← value
        symbol "\x7b"
        return Construct.condition branch (some tested)) :=
  (keyword_steady ht n hword).bind fun _ => (value_steady ht).bind fun _ =>
    .sign_bind ht (by decide) (Nat.le_succ n) (.pure _)

theorem elseLine_steady : Steady t n 0 elseLine elseLine :=
  .named ((keyword_steady ht n (by decide)).bind fun _ =>
    .sign_bind ht (by decide) (Nat.le_succ n) (.pure _))

theorem loopLine_steady : Steady t n 0 loopLine loopLine :=
  .named ((keyword_steady ht n (by decide)).bind fun _ => (name_steady ht n).bind fun _ =>
    (keyword_steady ht n (by decide)).bind fun _ => (name_steady ht n).bind fun _ =>
      .sign_bind ht (by decide) (Nat.le_succ n) (.pure _))

theorem tryLine_steady : Steady t n 0 tryLine tryLine :=
  .named ((keyword_steady ht n (by decide)).bind fun _ =>
    .sign_bind ht (by decide) (Nat.le_succ n) (.pure _))

theorem signalLine_steady : Steady t n 0 signalLine signalLine :=
  .named ((keyword_steady ht n (by decide)).bind fun _ => (name_steady ht n).bind fun _ =>
    (inParentheses_steady ht (name_steady ht n)).optional.bind fun _ =>
      .sign_bind ht (by decide) (Nat.le_succ n) (.pure _))

theorem printLine_steady : Steady t n 0 printLine printLine :=
  .named ((keyword_steady ht n (by decide)).bind fun _ =>
    (operand_steady ht (value_steady ht)).bind fun _ => .pure _)

theorem exitLine_steady : Steady t n 0 exitLine exitLine := by
  refine .named ((keyword_steady ht n (by decide)).bind fun _ =>
    (operand_steady ht (number_steady ht n)).bind fun spelling => ?_)
  cases spelling with
  | none => exact .pure _
  | some spelling =>
    dsimp only
    cases exitCode? spelling with
    | none => exact .pure _
    | some code => exact .pure _

theorem declarationLine_steady : Steady t n 0 declarationLine declarationLine :=
  .named ((typeName_steady ht n).bind fun _ => (name_steady ht n).bind fun _ =>
    .sign_bind ht (by decide) (Nat.le_succ n) ((value_steady ht).bind fun _ => .pure _))

theorem assignmentLine_steady : Steady t n 0 assignmentLine assignmentLine :=
  .named ((name_steady ht n).bind fun _ =>
    .sign_bind ht (by decide) (Nat.le_succ n) ((value_steady ht).bind fun _ => .pure _))

theorem methodLine_steady : Steady t n 0 methodLine methodLine :=
  .named ((name_steady ht n).bind fun _ => (chain_steady ht n).bind fun _ => .pure _)

theorem statement_steady : Steady t n 0 statement statement := by
  have hopen : Steady t n 0 openLine openLine := .named ((Steady.sign ht (by decide)).map _)
  have hclose : Steady t n 0 closeLine closeLine := .named ((Steady.sign ht (by decide)).map _)
  have hif : Steady t n 0 ifLine ifLine := .named (tested_steady ht n (by decide) _)
  have helif : Steady t n 0 elseIfLine elseIfLine := .named (tested_steady ht n (by decide) _)
  have hfirst := (importLine_steady ht n).either ((packageLine_steady ht n).either
    ((routineLine_steady ht n).either ((returnLine_steady ht n).either (hif.either (helif.either
      ((elseLine_steady ht n).either ((loopLine_steady ht n).either ((tryLine_steady ht n).either
        ((signalLine_steady ht n).either (printLine_steady ht n))))))))))
  have hlast := hopen.either (hclose.either ((declarationLine_steady ht n).either
    ((assignmentLine_steady ht n).either (methodLine_steady ht n))))
  exact (hfirst.map _).either ((exitLine_steady ht n).either (hlast.map _))

omit ht in
theorem endOfLine_reads {s rest : List Char} {u : Unit} (h : endOfLine.Reads s u rest) :
    s = [] ∧ rest = [] := by
  have h' := (found_named _ s).symm.trans h
  cases s with
  | nil => exact ⟨rfl, (Prod.mk.inj (Option.some.inj h')).2.symm⟩
  | cons c s => cases h'

omit ht in
theorem endOfLine_steady : Steady t n 0 endOfLine endOfLine := by
  refine .named ⟨fun {line s rest m u} hline _ h => ?_, fun {line s m} _ _ _ => Or.inr ?_⟩
  · obtain ⟨rfl, rfl⟩ := endOfLine_reads ((found_named _ s).trans h)
    simpa using hline
  · cases s with
    | nil => rfl
    | cons c s => rfl

theorem wholeLine_steady : Steady t n 0 wholeLine wholeLine :=
  (statement_steady ht n).optional.bind fun construct => (endOfLine_steady n).bind fun _ =>
    .pure construct

/-- A line that is read to its end is read to its end with the filler after it as well. -/
theorem wholeLine_tailed {s rest : List Char} {read : Option (Except Fault Construct)}
    (h : wholeLine.Reads s read rest) : ∃ rest', wholeLine.Reads (tailed t s) read rest' := by
  have hsteady := wholeLine_steady ht (s.length + 1)
  obtain rfl : rest = [] := by
    obtain ⟨_, mid, _, hend⟩ := reads_bind h
    obtain ⟨_, left, hend, hpure⟩ := reads_bind hend
    obtain ⟨_, rfl⟩ := endOfLine_reads hend
    exact (Prod.mk.inj (Option.some.inj hpure)).2.symm
  have hwhole : ¬ Doomed s := (hsteady.eats (Eats.refl s) (Int.le_refl 0) h).not_doomed
  have hagrees := hsteady.agrees (Eats.refl s) (Int.le_refl 0) (Nat.lt_succ_self _)
  rw [h] at hagrees
  exact ⟨_, hagrees.resolve_left hwhole⟩

end Lines

end LineScript.Line
