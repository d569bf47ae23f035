import LineScript.Proofs.Fillers
import LineScript.Proofs.Spaced
import Mathlib.Data.List.DropRight

/-!
# Comments and indentation

A line that is not blank keeps its construct under any indentation and with any comment after it,
and a line that is a comment does nothing. A script that compiles therefore compiles to the same
program when its lines are indented anew and comments are added.
-/
namespace LineScript

open Text

namespace Line

/-- Nothing but spaces and tabs. -/
def isIndent (w : String) : Bool :=
  w.toList.all isSpace

section Trimming

variable {s t w : List Char}

theorem isBlank_of_isSpace {c : Char} (h : isSpace c = true) : isBlank c = true := by
  simp only [isSpace, Bool.or_eq_true, beq_iff_eq] at h
  rcases h with rfl | rfl
  · rfl
  · rfl

theorem trimLeft_indent (hw : ∀ c ∈ w, isSpace c = true) (s : List Char) :
    trimLeft (w ++ s) = trimLeft s :=
  List.dropWhile_append_of_pos fun c hc => isBlank_of_isSpace (hw c hc)

theorem skipFiller_indent (hw : ∀ c ∈ w, isSpace c = true) (s : List Char) :
    skipFiller (w ++ s) = skipFiller s := by
  unfold skipFiller
  rw [List.dropWhile_append_of_pos hw]

theorem trimLeft_ne_nil (h : s.all isBlank = false) : trimLeft s ≠ [] := by
  intro hnil
  have hall := List.all_eq_true.mpr (List.dropWhile_eq_nil_iff.mp hnil)
  rw [h] at hall
  cases hall

theorem trimLeft_append (h : s.all isBlank = false) (t : List Char) :
    trimLeft (s ++ t) = trimLeft s ++ t := by
  have hne := trimLeft_ne_nil h
  unfold trimLeft at hne ⊢
  rw [List.dropWhile_append, if_neg (by simpa using hne)]

/-- A line starts a comment or does not, whether or not the blanks at its end are there. -/
theorem trimBoth_comment_iff :
    (∃ text, trimBoth s = '/' :: '/' :: text) ↔ ∃ text, trimLeft s = '/' :: '/' :: text := by
  constructor
  · rintro ⟨text, htext⟩
    obtain ⟨blanks, hblanks⟩ : trimBoth s <+: trimLeft s := List.rdropWhile_prefix isBlank _
    rw [htext] at hblanks
    exact ⟨text ++ blanks, hblanks.symm⟩
  · rintro ⟨text, htext⟩
    exact ⟨trimRight text, by rw [trimBoth, htext, trimRight_cons rfl, trimRight_cons rfl]⟩

theorem trimBoth_ne_nil (h : s.all isBlank = false) : trimBoth s ≠ [] := by
  intro hnil
  have hall : ∀ c ∈ trimLeft s, isBlank c = true := List.rdropWhile_eq_nil_iff.mp hnil
  have hidem : trimLeft (trimLeft s) = trimLeft s := List.dropWhile_idempotent _ _
  exact trimLeft_ne_nil h (hidem.symm.trans (List.dropWhile_eq_nil_iff.mpr hall))

end Trimming

section Classify

variable {line indent tail : String} {c : Construct}

theorem classify_comment {text : List Char} (h : trimLeft line.toList = '/' :: '/' :: text) :
    classify line = .ok .comment := by
  obtain ⟨text, htext⟩ := trimBoth_comment_iff.mpr ⟨text, h⟩
  unfold classify
  rw [htext]
  rfl

/-- A line that is neither blank nor a comment is what the grammar reads from it. -/
theorem classify_other (hline : allBlank line = false)
    (hother : ∀ text, trimLeft line.toList ≠ '/' :: '/' :: text) :
    classify line = .ok c ↔ ∃ read rest, wholeLine.Reads (skipFiller line.toList) read rest ∧
      read.getD (.ok .comment) = .ok c := by
  have hne := trimBoth_ne_nil hline
  have hother' : ∀ text, trimBoth line.toList ≠ '/' :: '/' :: text :=
    not_exists.mp (mt trimBoth_comment_iff.mp (not_exists.mpr hother))
  unfold classify Phrase.Reads
  split
  · rename_i heq
    exact absurd heq hne
  · rename_i heq
    exact absurd heq (hother' _)
  · cases hattempt : wholeLine (skipFiller line.toList) with
    | mk found missed =>
      cases found with
      | none => simp
      | some found =>
        obtain ⟨read, rest⟩ := found
        cases read with
        | none => simp
        | some construct => simp

theorem allBlank_indent (hindent : isIndent indent = true) (line : String) :
    allBlank (indent ++ line) = allBlank line := by
  have hblank : indent.toList.all isBlank = true :=
    List.all_eq_true.mpr fun c hc => isBlank_of_isSpace (List.all_eq_true.mp hindent c hc)
  rw [allBlank, String.toList_append, List.all_append, hblank, Bool.true_and]
  rfl

theorem allBlank_append (hline : allBlank line = false) (tail : String) :
    allBlank (line ++ tail) = false := by
  rw [allBlank] at hline
  rw [allBlank, String.toList_append, List.all_append, hline, Bool.false_and]

/-- The indentation of a line makes no difference. -/
theorem classify_indent (hindent : isIndent indent = true) (hline : allBlank line = false) :
    classify (indent ++ line) = .ok c ↔ classify line = .ok c := by
  have hspaces : ∀ c ∈ indent.toList, isSpace c = true := List.all_eq_true.mp hindent
  have hleft : trimLeft (indent ++ line).toList = trimLeft line.toList := by
    rw [String.toList_append, trimLeft_indent hspaces]
  rcases Classical.exists_or_forall_not fun text => trimLeft line.toList = '/' :: '/' :: text with
    ⟨text, hcomment⟩ | hother
  · rw [classify_comment (hleft.trans hcomment), classify_comment hcomment]
  · have hline' := (allBlank_indent hindent line).trans hline
    rw [classify_other hline hother, classify_other hline' (hleft ▸ hother), String.toList_append,
      skipFiller_indent hspaces]

/-- A line keeps its construct with a filler after it. -/
theorem classify_tail (htail : Trailing tail.toList) (hline : allBlank line = false)
    (h : classify line = .ok c) : classify (line ++ tail) = .ok c := by
  have hleft : trimLeft (line ++ tail).toList = trimLeft line.toList ++ tail.toList := by
    rw [String.toList_append, trimLeft_append hline]
  rcases Classical.exists_or_forall_not fun text => trimLeft line.toList = '/' :: '/' :: text with
    ⟨text, hcomment⟩ | hother
  · rw [hcomment] at hleft
    rw [classify_comment hcomment] at h
    rw [classify_comment hleft, h]
  · obtain ⟨read, rest, hread, hresult⟩ := (classify_other hline hother).mp h
    have hother' := htail.not_comment (trimLeft_ne_nil hline) hother
    rw [← hleft] at hother'
    obtain ⟨rest', hread'⟩ := wholeLine_tailed htail hread
    refine (classify_other (allBlank_append hline tail) hother').mpr ⟨read, rest', ?_, hresult⟩
    rw [String.toList_append, skipFiller_append htail]
    exact hread'

theorem classify_filled (hindent : isIndent indent = true) (htail : Trailing tail.toList)
    (hline : allBlank line = false) (h : classify line = .ok c) :
    classify (indent ++ line ++ tail) = .ok c := by
  rw [String.append_assoc]
  exact (classify_indent hindent (allBlank_append hline tail)).mpr (classify_tail htail hline h)

theorem allBlank_of_classify (h : classify line = .ok c) (hc : c ≠ .blank) :
    allBlank line = false := by
  by_contra hblank
  rw [Bool.not_eq_false] at hblank
  rw [classify_of_allBlank hblank] at h
  exact hc (Except.ok.inj h).symm

end Classify

section Trailing

variable {gap : String} (hgap : isIndent gap = true)

include hgap

theorem trailing_indent : Trailing gap.toList := by
  have hspaces : ∀ c ∈ gap.toList, isSpace c = true := List.all_eq_true.mp hgap
  refine ⟨fun c hc => hspaces c (List.mem_of_mem_head? hc), ?_⟩
  have hnil := skipFiller_indent hspaces []
  rwa [List.append_nil] at hnil

theorem trailing_comment (comment : String) : Trailing (gap ++ " //" ++ comment).toList := by
  have hspaces : ∀ c ∈ gap.toList, isSpace c = true := List.all_eq_true.mp hgap
  rw [String.toList_append, String.toList_append, List.append_assoc]
  constructor
  · intro c hc
    cases hchars : gap.toList with
    | nil =>
      rw [hchars] at hc
      obtain rfl := Option.some.inj hc
      rfl
    | cons d chars =>
      rw [hchars] at hc hspaces
      obtain rfl := Option.some.inj hc
      exact hspaces d List.mem_cons_self
  · rw [skipFiller_indent hspaces]
    rfl

end Trailing

/-- A line as it is; or, if it is not blank, under another indentation, with spaces and perhaps a
comment after it. -/
def Refilled (line other : String) : Prop :=
  other = line ∨ allBlank line = false ∧
    ∃ indent indent' text gap comment, isIndent indent = true ∧ isIndent indent' = true ∧
      isIndent gap = true ∧ line = indent ++ text ∧
      (other = indent' ++ text ++ gap ∨ other = indent' ++ text ++ gap ++ " //" ++ comment)

theorem Refilled.classify {line other : String} {c : Construct} (h : Refilled line other)
    (hc : classify line = .ok c) : classify other = .ok c := by
  rcases h with rfl |
    ⟨hline, indent, indent', text, gap, comment, hindent, hindent', hgap, rfl, hother⟩
  · exact hc
  rw [allBlank_indent hindent] at hline
  have hbare := (classify_indent hindent hline).mp hc
  rcases hother with rfl | rfl
  · exact classify_filled hindent' (trailing_indent hgap) hline hbare
  · have hfilled := classify_filled hindent' (trailing_comment hgap comment) hline hbare
    simpa only [String.append_assoc] using hfilled

/-- The other lines have comment lines more, and lines that are not blank may be indented and
commented in another way. -/
inductive Annotated : List String → List String → Prop where
  | nil : Annotated [] []
  | comment {lines others : List String} (indent text : String) (hindent : isIndent indent = true)
      (h : Annotated lines others) : Annotated lines ((indent ++ "//" ++ text) :: others)
  | line {line other : String} {lines others : List String} (hline : Refilled line other)
      (h : Annotated lines others) : Annotated (line :: lines) (other :: others)

theorem classify_comment_line {indent : String} (hindent : isIndent indent = true) (text : String) :
    classify (indent ++ "//" ++ text) = .ok .comment := by
  have hleft : trimLeft (indent ++ "//" ++ text).toList = '/' :: '/' :: text.toList := by
    rw [String.append_assoc, String.toList_append, trimLeft_indent (List.all_eq_true.mp hindent),
      String.toList_append]
    rfl
  exact classify_comment hleft

end Line

section Runs

variable {s t : Scopes} {file text other : String} {number row : Nat}

/-- Nothing but the log may differ. -/
theorem inert_eq : Inert fun _ es es' => es' = es where
  made _ _ _ := rfl
  snoc _ _ _ _ h := by rw [h]
  last _ _ _ h := by rw [h]

theorem Store.alike_refl {s : Store} (h : 0 < s.size) : s.Alike (fun _ es es' => es' = es) s :=
  ⟨rfl, rfl, h, fun _ b hb => ⟨b, hb, rfl, rfl, rfl, rfl⟩⟩

theorem Store.Alike.eq {s t : Store} (h : s.Alike (fun _ es es' => es' = es) t) : t = s := by
  have hblocks : t.blocks = s.blocks := by
    refine Array.ext_getElem? fun id => ?_
    change t.get? id = s.get? id
    cases hid : s.get? id with
    | none => exact h.get?_none hid
    | some b =>
      obtain ⟨⟨kind, elements, closed, root⟩, hb', halike⟩ := h.block id b hid
      obtain ⟨rfl, rfl, rfl, rfl⟩ := halike
      exact hb'
  cases t
  cases s
  obtain rfl := hblocks
  obtain rfl := h.fresh
  rfl

theorem Session.applyLine_congr (h : Line.classify other = Line.classify text) (file : String)
    (row : Nat) : applyLine file row other = applyLine file row text := by
  unfold applyLine
  rw [h]

variable {name : String} {isModule : Bool} {deps : List Dependency}

/-- What a line does to the scopes does not depend on what is logged before it. -/
theorem Scopes.applyLine_log {constructs : List Construct}
    (hruns : (Scopes.start name isModule deps).Runs constructs s)
    (h : Succeeds (Session.applyLine file number text) s () t) (row : Nat) (log : List LogEntry) :
    ∃ log', Succeeds (Session.applyLine file row text) { s with log := log } ()
      { t with log := log' } := by
  have hsame : s.Alike (fun _ es es' => es' = es) { s with log := log } :=
    ⟨s.store, log, Store.alike_refl hruns.linked_named.1.zero_lt_size, rfl⟩
  have hechoes := (Scopes.alike_iff_echoes inert_eq).mp hsame
  obtain ⟨_, t', h', _, hechoes'⟩ := applyLine_inPlace hruns hechoes rfl
    (fun _ _ e h => congrArg (List.cons e) h) text number row _ t h
  obtain ⟨store, log', hstore, rfl⟩ := (Scopes.alike_iff_echoes inert_eq).mpr hechoes'
  obtain rfl := hstore.eq
  exact ⟨log', h'⟩

/-- A comment is only logged. -/
theorem Session.applyLine_comment (h : Line.classify text = .ok .comment) (s : Scopes) :
    ∃ log, Succeeds (applyLine file row text) s () { s with log := log } :=
  ⟨_, applyLine_ok_iff.mpr ⟨.comment, h, (succeeds_pure _ _ _ _).mpr ⟨rfl, rfl⟩⟩⟩

theorem Scopes.applyLines_annotated {constructs : List Construct} {texts others : List String}
    {lines rows : List (Nat × String)} (h : Line.Annotated texts others)
    (htexts : lines.map Prod.snd = texts) (hothers : rows.map Prod.snd = others)
    (hruns : (Scopes.start name isModule deps).Runs constructs s)
    (hlines : Scopes.applyLines file lines s = (.ok (), t)) (log : List LogEntry) :
    ∃ log', Scopes.applyLines file rows { s with log := log } =
      (.ok (), { t with log := log' }) := by
  induction h generalizing lines rows s constructs log with
  | nil =>
    obtain rfl := List.map_eq_nil_iff.mp htexts
    obtain rfl := List.map_eq_nil_iff.mp hothers
    obtain rfl := congrArg Prod.snd hlines
    exact ⟨log, rfl⟩
  | comment indent text hindent _ ih =>
    obtain ⟨⟨row, _⟩, rows, rfl, rfl, hothers'⟩ := List.map_eq_cons_iff.mp hothers
    have hclassify := Line.classify_comment_line hindent text
    obtain ⟨log₁, hcomment⟩ := Session.applyLine_comment hclassify { s with log := log }
    obtain ⟨log₂, hrest⟩ := ih htexts hothers' hruns hlines log₁
    exact ⟨log₂, applyLines_cons_iff.mpr ⟨_, hcomment, hrest⟩⟩
  | line hline _ ih =>
    obtain ⟨⟨number, _⟩, lines, rfl, rfl, htexts'⟩ := List.map_eq_cons_iff.mp htexts
    obtain ⟨⟨row, _⟩, rows, rfl, rfl, hothers'⟩ := List.map_eq_cons_iff.mp hothers
    obtain ⟨u, hfirst, hlines'⟩ := applyLines_cons_iff.mp hlines
    obtain ⟨c, hc, happly⟩ := Session.applyLine_ok_iff.mp hfirst
    have hnext := Scopes.Runs.snoc _ hruns (Session.apply_ok happly)
    obtain ⟨log₁, hfirst'⟩ := applyLine_log hruns hfirst row log
    rw [← Session.applyLine_congr ((hline.classify hc).trans hc.symm)] at hfirst'
    obtain ⟨log₂, hrest⟩ := ih htexts' hothers' hnext hlines' log₁
    exact ⟨log₂, applyLines_cons_iff.mpr ⟨_, hfirst', hrest⟩⟩

end Runs

/-- The other script has comment lines more, and its lines may be indented and commented in another
way. -/
structure Script.Annotates (script other : Script) : Prop where
  name : other.name = script.name
  path : other.path = script.path
  lines : Line.Annotated (Text.sourceLines script.content) (Text.sourceLines other.content)

theorem Script.Annotates.compiles {script other : Script} (h : script.Annotates other)
    {settings : Settings} {program : Program} {log : List LogEntry}
    (hcompile : compile settings script = (.ok program, log)) :
    ∃ log', compile settings other = (.ok program, log') := by
  obtain ⟨opened, deps, final, hopen, happend, _, hlines, houter, rfl⟩ := compile_start hcompile
  have hstem : other.stem = script.stem := by rw [Script.stem, Script.stem, h.name, h.path]
  obtain ⟨log', hlines'⟩ := Scopes.applyLines_annotated h.lines script.map_snd_lines
    other.map_snd_lines .nil hlines (Scopes.start script.stem settings.isModule deps).log
  rw [← hstem] at hopen happend hlines' ⊢
  rw [← h.name] at hlines'
  have houter' : ({ final with log := log' } : Scopes).outer = [] := houter
  have hcompile' := compile_of_lines hopen happend hlines' houter'
  exact hcompile'

/-- Comments and indentation do not count. A line that is not blank keeps its construct under any
indentation, with spaces or a comment after it; and a script that compiles gives the same program
when comment lines are put in and other lines are indented and commented anew. -/
theorem comments_and_indentation_do_not_count :
    (∀ (line comment indent gap : String) (c : Construct), Line.classify line = .ok c →
      c ≠ .blank → Line.isIndent indent = true → Line.isIndent gap = true →
      Line.classify (indent ++ line ++ gap ++ " //" ++ comment) = Line.classify line ∧
        Line.classify (indent ++ line ++ gap) = Line.classify line) ∧
    ∀ (settings : Settings) (script other : Script) (program : Program) (log : List LogEntry),
      script.Annotates other → compile settings script = (.ok program, log) →
      ∃ log', compile settings other = (.ok program, log') := by
  constructor
  · intro line comment indent gap c hc hblank hindent hgap
    have hline := Line.allBlank_of_classify hc hblank
    rw [hc]
    constructor
    · have hfilled := Line.classify_filled hindent (Line.trailing_comment hgap comment) hline hc
      simpa only [String.append_assoc] using hfilled
    · exact Line.classify_filled hindent (Line.trailing_indent hgap) hline hc
  · intro settings script other program log h hcompile
    exact h.compiles hcompile

theorem comments_and_indentation_do_not_count_for_print :
    let line := "print(a.f(\"//\")) // (\""
    let script := Script.ofSource "a" "  print(1)\n"
    let other := Script.ofSource "a" "\t// )\nprint(1)\t // (\"\n\n//"
    (∃ c, c ≠ .blank ∧ Line.classify line = .ok c ∧
        Line.classify ("\t" ++ line ++ " " ++ " //" ++ "\") )") = .ok c) ∧
      script.Annotates other ∧ ∃ program log log', compile {} script = (.ok program, log) ∧
        compile {} other = (.ok program, log') := by
  intro line script other
  have hlabel : (Line.classify line).toOption.map Construct.label = some "print" := by
    decide +kernel
  obtain ⟨c, hc, hprint⟩ := Option.map_eq_some_iff.mp hlabel
  have hline := except_toOption_eq_some hc
  have hne : c ≠ .blank := by
    rintro rfl
    exact absurd hprint (by decide)
  have hkept := comments_and_indentation_do_not_count.1 line "\") )" "\t" " " c hline hne rfl rfl
  rw [hline] at hkept
  have hlines : Text.sourceLines script.content = ["  " ++ "print(1)", ""] := by decide
  have hothers : Text.sourceLines other.content = ["\t" ++ "//" ++ " )",
      "" ++ "print(1)" ++ "\t" ++ " //" ++ " (\"", "", "" ++ "//" ++ ""] := by decide
  have hrefilled : Line.Refilled ("  " ++ "print(1)")
      ("" ++ "print(1)" ++ "\t" ++ " //" ++ " (\"") :=
    Or.inr ⟨by decide, "  ", "", "print(1)", "\t", " (\"", rfl, rfl, rfl, rfl, Or.inr rfl⟩
  have hannotates : script.Annotates other := by
    refine ⟨rfl, rfl, ?_⟩
    rw [hlines, hothers]
    exact .comment _ _ rfl (.line hrefilled (.line (Or.inl rfl) (.comment _ _ rfl .nil)))
  obtain ⟨program, log, hcompile, _⟩ := exists_of_compile_any {} script (fun _ => true)
    (by decide +kernel)
  obtain ⟨log', hcompile'⟩ := comments_and_indentation_do_not_count.2 {} script other program log
    hannotates hcompile
  exact ⟨⟨c, hne, hline, hkept.1⟩, hannotates, program, log, log', hcompile, hcompile'⟩

end LineScript
