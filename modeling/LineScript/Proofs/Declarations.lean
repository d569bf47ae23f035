import LineScript.Line.Classify
import LineScript.Proofs.Literals
import Mathlib.Data.List.TakeWhile

/-!
# Declarations are read back

A line that declares a variable by the native text of a literal is classified as that declaration.
The word for the kind may be almost any name, a keyword of another construct among them: such a
construct misses what has to follow its keyword.
-/
namespace LineScript

theorem Text.isDigit_of_startsName {c : Char} (h : Text.startsName c = true) :
    c.isDigit = false := by
  have hlow := (Text.toNat_of_startsName h).1
  simp only [Char.isDigit, Bool.and_eq_false_iff, decide_eq_false_iff_not]
  refine Or.inr fun hhigh => ?_
  have hnat : c.toNat ≤ 57 := hhigh
  omega

namespace Line

open Phrase

theorem skipFiller_name {n : List Char} (hn : Text.isName n = true) (s : List Char) :
    skipFiller (n ++ s) = n ++ s := by
  obtain ⟨c, rest, rfl, hc⟩ := exists_cons_of_isName hn
  exact skipFiller_cons (isSpace_of_startsName hc) (startsName_ne hc rfl)

theorem symbol_misses_name {text : String} {d : Char} {more n : List Char}
    (htext : text.toList = d :: more) (hd : Text.startsName d = false)
    (hn : Text.isName n = true) (s : List Char) : (symbol text).Misses (n ++ s) := by
  obtain ⟨c, rest, rfl, hc⟩ := exists_cons_of_isName hn
  exact symbol_misses htext (startsName_ne hc hd)

theorem token_stops {α : Type} {read : List Char → Option (α × List Char)} {s rest : List Char}
    (h : ∀ a after, read s = some (a, after) → skipFiller after = rest) :
    (token read).Stops s rest := by
  cases hread : read s with
  | none => exact Or.inl (.token hread)
  | some found =>
    obtain ⟨a, after⟩ := found
    have htoken : (token read).Reads s a (skipFiller after) := .token hread
    rw [h a after hread] at htoken
    exact Or.inr ⟨a, htoken⟩

theorem chain_misses {c : Char} (h : c ≠ '.') (s : List Char) : chain.Misses (c :: s) := by
  have hcall : splitCall (c :: s) = none := by
    unfold splitCall
    split
    · rename_i heq
      exact absurd (List.cons.inj heq).1 h
    · rfl
  refine word_misses ?_
  rw [splitChain, hcall]

section Value

variable {n : String} (hn : Text.isName n.toList = true) (s : List Char)

include hn

theorem name_reads_space {c : Char} (hspace : isSpace c = false) (hslash : c ≠ '/') :
    name.Reads (n.toList ++ ' ' :: c :: s) n (c :: s) := by
  have hread : name.Reads (n.toList ++ ' ' :: c :: s) n _ := name_reads hn (by simp; decide)
  rwa [skipFiller_space, skipFiller_cons hspace hslash] at hread

/-- A construct with a keyword is not there if the word before the space is another one, or if what
has to follow the keyword is not there. -/
theorem keyword_bind_misses {α : Type} {text : String} {f : Unit → Phrase α}
    (htext : Text.isName text.toList = true) (hrest : n = text → (f ()).Misses (skipFiller s)) :
    (keyword text >>= f).Misses (n.toList ++ ' ' :: s) := by
  by_cases heq : n = text
  · subst heq
    exact (keyword_reads htext s).bind_misses (hrest rfl)
  · exact (keyword_misses htext hn s heq).bind

/-- A literal that starts with a name is that name. -/
theorem literalWithin_stops (depth : Nat) :
    (literalWithin depth).Stops (n.toList ++ ' ' :: '=' :: s) ('=' :: s) := by
  have hchars := Text.continuesName_of_isName hn
  have hsplit : ∀ text : String, (∀ c ∈ text.toList, Text.continuesName c = true) →
      splitKeyword text.toList (n.toList ++ ' ' :: '=' :: s) =
        if text.toList = n.toList then some ((), ' ' :: '=' :: s) else none :=
    fun text htext => splitKeyword_space htext hchars ('=' :: s)
  have htrue := hsplit "true" (List.all_eq_true.mp (by decide))
  have hfalse := hsplit "false" (List.all_eq_true.mp (by decide))
  have hundef := hsplit "undef" (List.all_eq_true.mp (by decide))
  have hnull := hsplit "null" (List.all_eq_true.mp (by decide))
  obtain ⟨c, rest, hcons, hc⟩ := exists_cons_of_isName hn
  cases depth with
  | zero => exact Or.inl rfl
  | succ depth =>
    refine Stops.named (.either (Or.inl ?_) (.either (Or.inl ?_) (.either (.map (.named ?_) _)
      (.either (.map (.named ?_) _) (.either (Or.inl ?_) (Or.inl ?_))))))
    · rw [hcons]
      exact .map (string_misses _ (isQuoteMark_of_startsName hc)) _
    · rw [hcons]
      exact .map (number_misses _ (Text.isDigit_of_startsName hc) (startsName_ne hc rfl)) _
    · refine token_stops fun a after hread => ?_
      rw [htrue, hfalse] at hread
      split_ifs at hread <;> cases hread <;> rfl
    · refine token_stops fun a after hread => ?_
      rw [hundef, hnull] at hread
      split_ifs at hread <;> cases hread <;> rfl
    · exact .map (.named (.bind (symbol_misses_name rfl rfl hn _))) _
    · exact .map (.named (.bind (symbol_misses_name rfl rfl hn _))) _

theorem literal_stops : literal.Stops (n.toList ++ ' ' :: '=' :: s) ('=' :: s) := by
  have hstops := literalWithin_stops hn s ((n.toList ++ ' ' :: '=' :: s).length + 1)
  unfold Stops Reads Misses at hstops ⊢
  rw [literal_apply]
  exact hstops

theorem valueWithin_stops (depth : Nat) :
    (valueWithin depth).Stops (n.toList ++ ' ' :: '=' :: s) ('=' :: s) := by
  have hname := name_reads_space hn s (c := '=') rfl (by decide)
  cases depth with
  | zero => exact Or.inl rfl
  | succ depth =>
    refine Stops.named (.either (Or.inl ?_) (.either (Or.inl ?_) (.either (Or.inl ?_)
      (.either (.map (literal_stops hn s) _) (Or.inr ⟨_, .named (hname.map _)⟩)))))
    · refine .named (keyword_bind_misses hn _ rfl fun _ => ?_)
      exact Misses.bind (symbol_misses (d := '(') rfl (by decide))
    · exact .map (.named (hname.bind_misses (Misses.bind (chain_misses (by decide) s)))) _
    · exact .named (hname.bind_misses (Misses.bind (symbol_misses (d := '(') rfl (by decide))))

theorem value_stops : value.Stops (n.toList ++ ' ' :: '=' :: s) ('=' :: s) := by
  have hstops := valueWithin_stops hn s ((n.toList ++ ' ' :: '=' :: s).length + 1)
  unfold Stops Reads Misses at hstops ⊢
  rw [value]
  exact hstops

end Value

/-- A literal does not start as a name does, apart from the undefined one. -/
theorem native_head (l : Literal) (hl : l.Numeric) :
    l = .undefined ∨ ∃ c rest, l.native.toList = c :: rest ∧ Text.startsName c = false := by
  have hnumber {n : String} (hn : IsNumber n.toList) :
      ∃ c rest, n.toList = c :: rest ∧ Text.startsName c = false := by
    generalize n.toList = s at hn
    cases hn with
    | negative h => exact ⟨'-', _, rfl, rfl⟩
    | unsigned h =>
      obtain ⟨c, rest, rfl, hc⟩ := h.head_isDigit
      refine ⟨c, rest, rfl, Bool.eq_false_iff.mpr fun hstarts => ?_⟩
      rw [Text.isDigit_of_startsName hstarts] at hc
      cases hc
  cases l with
  | text content => exact Or.inr ⟨'"', _, Perl.toList_quote content, rfl⟩
  | number spelling => exact Or.inr (hnumber hl)
  | truth value => exact Or.inr (hnumber (isNumber_truth value))
  | list items => exact Or.inr ⟨'[', _, Literal.toList_bracketed _, rfl⟩
  | object fields => exact Or.inr ⟨'\x7b', _, Literal.toList_braced _, rfl⟩
  | undefined => exact Or.inl rfl

theorem valueWithin_reads_literal {c : Char} {s rest : List Char} {l : Literal} (depth : Nat)
    (hc : Text.startsName c = false) (h : literal.Reads (c :: s) l rest) :
    (valueWithin (depth + 1)).Reads (c :: s) (.literal l) rest := by
  have hname : name.Misses (c :: s) := name_misses hc
  have hargv : (keyword "argv").Misses (c :: s) := by
    refine .named (.token (splitKeyword_misses s ?_))
    rintro rfl
    cases hc
  exact Reads.named (hargv.bind.named.either_reads ((hname.bind.named.map _).either_reads
    (hname.bind.named.either_reads (h.map Expression.literal).either)))

theorem value_reads_literal (l : Literal) (hl : l.Numeric) :
    value.Reads l.native.toList (.literal l.truthsAsNumbers) [] := by
  rcases native_head l hl with rfl | ⟨c, rest, hcons, hc⟩
  · rfl
  · have hread := literal_reads l hl
    rw [hcons] at hread ⊢
    have hwithin := valueWithin_reads_literal (c :: rest).length hc hread
    unfold Reads at hwithin ⊢
    rw [value, hwithin]

section Declaration

variable {t n : String} (ht : Text.isName t.toList = true) (hn : Text.isName n.toList = true)
  (s : List Char)

include ht hn

theorem typeName_reads :
    typeName.Reads (t.toList ++ ' ' :: (n.toList ++ s)) ⟨t, none⟩ (n.toList ++ s) := by
  have hname : name.Reads (t.toList ++ ' ' :: (n.toList ++ s)) t _ :=
    name_reads ht (by simp; decide)
  rw [skipFiller_space, skipFiller_name hn] at hname
  have hangle : (symbol "<").Misses (n.toList ++ s) := symbol_misses_name rfl rfl hn s
  exact .named (hname.bind (hangle.bind.optional.bind (reads_pure _ _)))

/-- No construct with a keyword of its own is there. -/
theorem keywordLines_miss (hword : t ∉ ["print", "return", "exit", "package"]) :
    (importLine <|> packageLine <|> routineLine <|> returnLine <|> ifLine <|> elseIfLine <|>
      elseLine <|> loopLine <|> tryLine <|> signalLine <|> printLine).Misses
      (t.toList ++ ' ' :: (n.toList ++ ' ' :: '=' :: s)) := by
  have hbody : skipFiller (n.toList ++ ' ' :: '=' :: s) = n.toList ++ ' ' :: '=' :: s :=
    skipFiller_name hn _
  have hname := name_reads_space hn s (c := '=') rfl (by decide)
  have hbrace : (symbol "\x7b").Misses (n.toList ++ ' ' :: '=' :: s) :=
    symbol_misses_name rfl rfl hn _
  have hbraceAfter : (symbol "\x7b").Misses ('=' :: s) :=
    symbol_misses (d := '\x7b') rfl (by decide)
  have hparen : (symbol "(").Misses ('=' :: s) := symbol_misses (d := '(') rfl (by decide)
  have hin : (keyword "in").Misses ('=' :: s) :=
    .named (.token (splitKeyword_misses s (by decide)))
  have hvalue := value_stops hn s
  refine .either (.named (keyword_bind_misses ht _ rfl ?_)) ?_
  · rw [hbody]
    have hstar : (symbol "*").Misses (n.toList ++ ' ' :: '=' :: s) :=
      symbol_misses_name rfl rfl hn _
    exact fun _ => .bind (.either (.named (.map hstar _)) (.named (.bind hbrace)))
  refine .either (.named (keyword_bind_misses ht _ rfl ?_)) ?_
  · rintro rfl
    simp at hword
  refine .either (.named (keyword_bind_misses ht _ rfl ?_)) ?_
  · rw [hbody]
    exact fun _ => hname.optional.bind_misses hparen.bind
  refine .either (.named (keyword_bind_misses ht _ rfl ?_)) ?_
  · rintro rfl
    simp at hword
  refine .either (.named (keyword_bind_misses ht _ rfl ?_)) ?_
  · rw [hbody]
    exact fun _ => hvalue.bind_misses fun _ => hbraceAfter.bind
  refine .either (.named (keyword_bind_misses ht _ rfl ?_)) ?_
  · rw [hbody]
    exact fun _ => hvalue.bind_misses fun _ => hbraceAfter.bind
  refine .either (.named (keyword_bind_misses ht _ rfl ?_)) ?_
  · rw [hbody]
    exact fun _ => hbrace.bind
  refine .either (.named (keyword_bind_misses ht _ rfl ?_)) ?_
  · rw [hbody]
    exact fun _ => hname.bind_misses hin.bind
  refine .either (.named (keyword_bind_misses ht _ rfl ?_)) ?_
  · rw [hbody]
    exact fun _ => hbrace.bind
  refine .either (.named (keyword_bind_misses ht _ rfl ?_))
    (.named (keyword_bind_misses ht _ rfl ?_))
  · rw [hbody]
    exact fun _ => hname.bind_misses (hparen.bind.optional.bind_misses hbraceAfter.bind)
  · rintro rfl
    simp at hword

end Declaration

theorem statement_reads_declaration (l : Literal) (hl : l.Numeric) {t n : String}
    (ht : Text.isName t.toList = true) (hn : Text.isName n.toList = true)
    (hword : t ∉ ["print", "return", "exit", "package"]) :
    statement.Reads (t.toList ++ ' ' :: (n.toList ++ ' ' :: '=' :: ' ' :: l.native.toList))
      (.ok (.declare ⟨t, none⟩ n (.literal l.truthsAsNumbers))) [] := by
  have hkeywords := keywordLines_miss ht hn (' ' :: l.native.toList) hword
  have hname := name_reads_space hn (' ' :: l.native.toList) (c := '=') rfl (by decide)
  have hequals := symbol_reads "=" (' ' :: l.native.toList)
  have hstart := (native_entry l hl _ (Nat.le_refl _)).start []
  rw [List.append_nil] at hstart
  rw [skipFiller_space, hstart] at hequals
  have hdeclaration : declarationLine.Reads
      (t.toList ++ ' ' :: (n.toList ++ ' ' :: '=' :: ' ' :: l.native.toList))
      (.declare ⟨t, none⟩ n (.literal l.truthsAsNumbers)) [] :=
    .named ((typeName_reads ht hn _).bind (hname.bind (hequals.bind
      ((value_reads_literal l hl).bind (reads_pure _ _)))))
  refine (hkeywords.map _).either_reads (Misses.either_reads ?_ (Reads.map ?_ _))
  · refine .named (keyword_bind_misses ht _ rfl ?_)
    rintro rfl
    simp at hword
  · have hopen : openLine.Misses
        (t.toList ++ ' ' :: (n.toList ++ ' ' :: '=' :: ' ' :: l.native.toList)) :=
      .named (.map (symbol_misses_name rfl rfl ht _) _)
    have hclose : closeLine.Misses
        (t.toList ++ ' ' :: (n.toList ++ ' ' :: '=' :: ' ' :: l.native.toList)) :=
      .named (.map (symbol_misses_name rfl rfl ht _) _)
    exact hopen.either_reads (hclose.either_reads hdeclaration.either)

/-- A line with a name in front is the construct that its statement is read as. -/
theorem classify_of_statement {line : String} {t s : List Char} {construct : Except Fault Construct}
    (hline : line.toList = t ++ s) (ht : Text.isName t = true)
    (h : statement.Reads (t ++ s) construct []) : classify line = construct := by
  have hwhole : wholeLine.Reads (t ++ s) (some construct) [] :=
    h.optional.bind (Reads.bind (Reads.named (a := ()) rfl) (reads_pure _ _))
  have hskip := skipFiller_name ht s
  unfold Reads at hwhole
  obtain ⟨c, rest, rfl, hc⟩ := exists_cons_of_isName ht
  have hblank := Text.isBlank_of_continuesName (Text.continuesName_of_startsName hc)
  rw [classify, hline, hskip, List.cons_append, Text.trimBoth_cons hblank]
  split
  · rename_i heq
    cases heq
  · rename_i heq
    exact absurd (List.cons.inj heq).1 (startsName_ne hc rfl)
  · cases hattempt : wholeLine (c :: (rest ++ s)) with
    | mk found missed =>
      rw [List.cons_append, hattempt] at hwhole
      obtain rfl : found = some (some construct, []) := hwhole
      rfl

/-- The native text of a literal, written as the value of a declaration, is read back as the
literal, with truth values as numbers. The word for the kind may be any name but the four that
start a construct of their own whatever follows. -/
theorem classify_native_declaration (l : Literal) (hl : l.Numeric) {t n : String}
    (ht : Text.isName t.toList = true) (hn : Text.isName n.toList = true)
    (hword : t ∉ ["print", "return", "exit", "package"]) :
    classify (t ++ " " ++ n ++ " = " ++ l.native) =
      .ok (.declare ⟨t, none⟩ n (.literal l.truthsAsNumbers)) := by
  refine classify_of_statement (t := t.toList)
    (s := ' ' :: (n.toList ++ ' ' :: '=' :: ' ' :: l.native.toList)) ?_ ht
    (statement_reads_declaration l hl ht hn hword)
  simp only [String.toList_append, List.append_assoc]
  rfl

/-- A keyword as the kind, another as the name, and a literal with quotes, brackets and escapes in
its texts and keys. -/
theorem classify_native_declaration_nested :
    classify ("if" ++ " " ++ "in" ++ " = " ++
      (Literal.object [("a b", .list [.text "x\"\\$\n,]", .number "-1.50", .truth true]),
        ("null", .undefined), ("", .object [])]).native) =
      .ok (.declare ⟨"if", none⟩ "in" (.literal
        (.object [("a b", .list [.text "x\"\\$\n,]", .number "-1.50", .number "1"]),
          ("null", .undefined), ("", .object [])]))) := by
  have hnumber : IsNumber "-1.50".toList :=
    .negative (.fraction (s := ['1']) (t := ['5', '0'])
      ⟨by decide, List.all_eq_true.mp (by decide)⟩ ⟨by decide, List.all_eq_true.mp (by decide)⟩)
  exact classify_native_declaration
    (.object [("a b", .list [.text "x\"\\$\n,]", .number "-1.50", .truth true]),
      ("null", .undefined), ("", .object [])])
    ⟨trivial, ⟨trivial, hnumber, trivial, trivial⟩, trivial, trivial, trivial, trivial, trivial⟩
    rfl rfl (by decide)

end Line

end LineScript
