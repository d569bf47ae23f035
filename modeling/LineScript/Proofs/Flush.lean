import LineScript.Proofs.Indentation

/-!
# The layout only indents

No line of a generated program has white space at its ends, and no quoted text in it goes over the
end of a line. What the layout trims off is therefore always empty: it puts spaces in front of
lines and changes nothing else.
-/
namespace LineScript

open Text Layout

namespace Text

theorem trimBoth_subset (t : List Char) : trimBoth t ⊆ t := by
  intro c hc
  rw [trimBoth, trimRight, List.mem_reverse] at hc
  have hleft := List.mem_reverse.mp ((List.dropWhile_suffix _).subset hc)
  exact (List.dropWhile_suffix _).subset hleft

theorem Passes.feedless {a b : List Char} {t : String} (h : Passes true a t b) :
    '\n' ∉ t.toList := by
  intro hmem
  exact absurd (fits_of_passAll (h []) _ hmem) (by decide)

end Text

namespace Layout

/-- A line that is in place as it is: it has no line feed inside and no blanks at its ends. -/
structure Flush (line : String) : Prop where
  feedless : '\n' ∉ line.toList
  trimmed : trimBoth line.toList = line.toList

/-- The text is made of flush lines. -/
def Flushed (text : String) : Prop :=
  ∃ lines, (∀ line ∈ lines, Flush line) ∧ text = unlines lines

theorem flush_empty : Flush "" :=
  ⟨List.not_mem_nil, rfl⟩

theorem flush_of_solid {line : String} (hfeed : '\n' ∉ line.toList)
    (hstarts : startsSolid line = true) (hends : endsSolid line = true) : Flush line := by
  refine ⟨hfeed, trimBoth_eq_self ?_ ?_⟩
  · intro c hc
    rw [startsSolid, Option.mem_def.mp hc] at hstarts
    exact Bool.not_eq_true' _ ▸ hstarts
  · intro c hc
    rw [endsSolid, Option.mem_def.mp hc] at hends
    exact Bool.not_eq_true' _ ▸ hends

namespace Flushed

theorem empty : Flushed "" :=
  ⟨[], by simp, rfl⟩

theorem append {t u : String} (ht : Flushed t) (hu : Flushed u) : Flushed (t ++ u) := by
  obtain ⟨lines, hlines, rfl⟩ := ht
  obtain ⟨more, hmore, rfl⟩ := hu
  exact ⟨lines ++ more, List.forall_mem_append.mpr ⟨hlines, hmore⟩, (unlines_append _ _).symm⟩

theorem line {line : String} (h : Flush line) : Flushed (line ++ "\n") :=
  ⟨[line], by simpa using h, by rw [unlines_cons]; exact String.append_empty.symm⟩

theorem block {head body : String} (hhead : '\n' ∉ head.toList)
    (hstarts : head = "" ∨ startsSolid head = true) (hbody : Flushed body) (tail : String)
    (htail : tail ∈ ["", ";"]) : Flushed (head ++ inBraces body ++ (tail ++ "\n")) := by
  have hopening : Flush (head ++ "\x7b") := by
    refine flush_of_solid (by simp [hhead]) ?_ (endsSolid_append head rfl)
    rcases hstarts with rfl | hstarts
    · rfl
    · exact startsSolid_append hstarts _
  have hclosing : Flush ("\x7d" ++ tail) := by
    rw [List.mem_pair] at htail
    rcases htail with rfl | rfl
    · exact ⟨by decide, rfl⟩
    · exact ⟨by decide, rfl⟩
  have htext : head ++ inBraces body ++ (tail ++ "\n") =
      head ++ "\x7b" ++ "\n" ++ (body ++ ("\x7d" ++ tail ++ "\n")) := by
    apply String.toList_injective
    simp [inBraces]
  rw [htext]
  exact (line hopening).append (hbody.append (line hclosing))

end Flushed

theorem Sentence.exists_flush {text : String} (h : Sentence text) :
    ∃ line, Flush line ∧ text = line ++ "\n" := by
  obtain ⟨hstarts, hhead, ending, hends, hending⟩ := h
  refine ⟨_, flush_of_solid ?_ (startsSolid_append hstarts ending) (endsSolid_append _ hends),
    String.append_assoc.symm⟩
  simp [hhead.feedless, hending.feedless]

theorem Spelled.flushed {text : String} (h : Spelled text) : Flushed text := by
  induction h with
  | empty => exact .empty
  | blank => exact .line flush_empty
  | sentence h =>
    obtain ⟨line, hline, rfl⟩ := h.exists_flush
    exact .line hline
  | append _ _ iht ihu => exact iht.append ihu

theorem composes_flushed : Composes (fun test => '\n' ∉ test.toList) Flushed where
  spelled := Spelled.flushed
  append := Flushed.append
  block hhead hbody tail htail := .block hhead.paired.feedless hhead.solid hbody tail htail
  branch := by
    intro branch test body htest hbody
    have hsolid : startsSolid branch.keyword = true := by cases branch <;> rfl
    have hfeed : '\n' ∉ branch.keyword.toList := by cases branch <;> decide
    refine .block ?_ (Or.inr ?_) hbody "" (by simp)
    · simp [hfeed, htest]
    · exact startsSolid_append (startsSolid_append (startsSolid_append hsolid _) _) _

/-- The line has spaces put in front of it, unless it is empty: a multiple of the width of a
tab. -/
def Indents (tab : Nat) (line placed : List Char) : Prop :=
  ∃ depth, placed = List.replicate (tab * depth) ' ' ++ line ∧ (line = [] → placed = [])

theorem indents_indentLines (tab depth : Nat) (lines : List (List Char)) :
    List.Forall₂ (Indents tab) lines (indentLines tab depth lines) := by
  induction lines generalizing depth with
  | nil => exact .nil
  | cons line rest ih =>
    rw [indentLines]
    split_ifs with hempty
    · rw [List.isEmpty_iff] at hempty
      exact .cons ⟨0, by simp [hempty], fun _ => rfl⟩ (ih depth)
    · exact .cons ⟨_, rfl, fun hnil => absurd (List.isEmpty_iff.mpr hnil) hempty⟩ (ih _)

theorem feedless_of_indents {tab : Nat} {lines placed : List (List Char)}
    (h : List.Forall₂ (Indents tab) lines placed) (hlines : ∀ line ∈ lines, '\n' ∉ line) :
    ∀ line ∈ placed, '\n' ∉ line := by
  induction h with
  | nil => simp
  | cons hfirst _ ih =>
    obtain ⟨depth, rfl, _⟩ := hfirst
    rw [List.forall_mem_cons] at hlines ⊢
    exact ⟨by simp [hlines.1], ih hlines.2⟩

/-- The lines of a text that the layout has indented. -/
theorem splitOn_format (text : String) (tab : Nat) :
    (format text tab).toList.splitOn '\n' =
      indentLines tab 0 ((text.toList.splitOn '\n').map trimBoth) := by
  have hindents := indents_indentLines tab 0 ((text.toList.splitOn '\n').map trimBoth)
  have hback : ((indentLines tab 0 ((text.toList.splitOn '\n').map trimBoth)).map
      String.ofList).map String.toList =
        indentLines tab 0 ((text.toList.splitOn '\n').map trimBoth) := by
    rw [List.map_map]
    exact (List.map_congr_left fun line _ => String.toList_ofList).trans (List.map_id _)
  rw [format, joinWith, String.toList_intercalate, hback]
  refine List.splitOn_intercalate _ (feedless_of_indents hindents ?_) ?_
  · intro line hline
    obtain ⟨piece, hpiece, rfl⟩ := List.mem_map.mp hline
    exact fun hfeed => not_mem_of_mem_splitOn hpiece (trimBoth_subset piece hfeed)
  · rw [ne_eq, ← List.length_eq_zero_iff, ← hindents.length_eq, List.length_map,
      List.length_eq_zero_iff]
    exact List.splitOn_ne_nil _ _

/-- The layout of flush lines trims nothing. -/
theorem Flushed.format {text : String} (h : Flushed text) (tab : Nat) :
    (∀ line ∈ text.toList.splitOn '\n', trimBoth line = line) ∧
      List.Forall₂ (Indents tab) (text.toList.splitOn '\n')
        ((Layout.format text tab).toList.splitOn '\n') := by
  obtain ⟨lines, hlines, rfl⟩ := h
  have hsplit : (unlines lines).toList.splitOn '\n' = lines.map String.toList ++ [[]] := by
    rw [toList_unlines]
    refine List.splitOn_intercalate _ (fun piece hpiece => ?_) (by simp)
    rw [List.mem_append, List.mem_map, List.mem_singleton] at hpiece
    rcases hpiece with ⟨line, hline, rfl⟩ | rfl
    · exact (hlines line hline).feedless
    · exact List.not_mem_nil
  have htrimmed : ∀ line ∈ (unlines lines).toList.splitOn '\n', trimBoth line = line := by
    intro piece hpiece
    rw [hsplit, List.mem_append, List.mem_map, List.mem_singleton] at hpiece
    rcases hpiece with ⟨line, hline, rfl⟩ | rfl
    · exact (hlines line hline).trimmed
    · rfl
  refine ⟨htrimmed, ?_⟩
  rw [splitOn_format, (List.map_congr_left htrimmed).trans (List.map_id' _)]
  exact indents_indentLines tab 0 _

theorem Flushed.withTerminator {text : String} (h : Flushed text) :
    withTerminator text = text ++ "1;\n" := by
  obtain ⟨lines, _, rfl⟩ := h
  exact withTerminator_unlines lines

end Layout

namespace Scopes

theorem Named.feedless_test {s : Scopes} (hnamed : s.Named) {e : Option Expression}
    {test : Option Test} (he : ∀ e' ∈ e, e'.WellFormed fun c => fits true c = true)
    (h : s.test e = .ok test) : ∀ t ∈ test, '\n' ∉ t.text.toList := by
  unfold Scopes.test at h
  split at h
  · obtain rfl := Except.ok.inj h
    simp
  · rename_i name
    obtain ⟨v, hv, h⟩ := (except_bind_ok _ _ _).mp h
    obtain rfl := (except_pure_ok _ _).mp h
    rintro _ ⟨rfl⟩
    have hpaired : Paired true v.condition :=
      paired_condition (by rw [hnamed.name_of_require hv]; exact he _ rfl)
    exact hpaired.feedless
  · obtain ⟨text, htext, h⟩ := (except_bind_ok _ _ _).mp h
    obtain rfl := (except_pure_ok _ _).mp h
    rintro _ ⟨rfl⟩ hmem
    rw [Test.text, String.toList_ofList] at hmem
    have hwritten := List.mem_of_mem_erase (List.mem_of_mem_erase (trimBoth_subset _ hmem))
    exact (hnamed.paired_inlineText (he _ rfl) htext).feedless hwritten

end Scopes

theorem Script.spells_lines {script : Script} {constructs : List Construct}
    (h : script.lines.mapM (fun line => Line.classify line.2) = .ok constructs) :
    ∀ c ∈ constructs, c.Spells fun test => '\n' ∉ test.toList := by
  intro c hc
  obtain ⟨line, hline, hclassify⟩ := exists_of_mem_mapM h hc
  have hwell : c.WellFormed fun c => fits true c = true := by
    refine Line.wellFormed_of_classify hclassify fun c hc => ?_
    have hfeed : c ≠ '\n' := fun heq => script.not_mem_line hline (heq ▸ hc)
    simp [fits, hfeed]
  refine ⟨hwell, fun s branch e test hnamed heq htest => hnamed.feedless_test ?_ htest⟩
  rw [heq] at hwell
  exact hwell

theorem flushed_of_runs {name : String} {isModule : Bool} {paths : List String}
    {deps : List Dependency} {constructs : List Construct} {s : Scopes} {script : Script}
    (hdeps : paths.mapM (fun path => Dependency.make path none) = .ok deps)
    (hconstructs : script.lines.mapM (fun line => Line.classify line.2) = .ok constructs)
    (hruns : (Scopes.start name isModule deps).Runs constructs s) :
    s.store.Spelled (fun test => '\n' ∉ test.toList) ∧
      ∀ id text, s.store.blockText id = .ok text → Flushed text := by
  have hspelled : s.store.Spelled fun test => '\n' ∉ test.toList :=
    Scopes.spelled_of_runs hdeps hruns (by decide) (Script.spells_lines hconstructs)
  refine ⟨hspelled, (Store.whole_within hspelled.kind composes_flushed ?_ _).2⟩
  intro e he hchild blockText routineText t ht
  exact (hspelled.element e he hchild _ blockText routineText t ht).1.flushed

/-- The layout changes no line of a program but by the spaces in front of it, as no line that it
sees has white space at its ends. A statement is always a single line, and so is what a branch
tests. -/
theorem layout_only_indents {settings : Settings} {script : Script} {program : Program}
    {log : List LogEntry} {text : String} (h : compile settings script = (.ok program, log))
    (hrender : program.render = .ok text) :
    let source := if settings.isModule then text ++ "1;\n" else text
    (∀ line ∈ source.toList.splitOn '\n', trimBoth line = line) ∧
      (∀ e, program.store.Stores e → e.child? = none → (∀ b, e ≠ .statement (.binding b)) →
        ∀ blockText routineText t, program.store.elementTextBy blockText routineText e = .ok t →
          ∃ line, '\n' ∉ line.toList ∧ t = line ++ "\n") ∧
      (∀ id info, program.store.kindOf id = some (.condition info) →
        ∀ test ∈ info.test, '\n' ∉ test.toList) ∧
      ∃ out, program.text = .ok out ∧
        List.Forall₂ (Indents settings.tabSize) (source.toList.splitOn '\n')
          (out.toList.splitOn '\n') := by
  obtain ⟨deps, constructs, final, hdeps, hconstructs, hruns, _, rfl, _⟩ := compile_run h
  intro source
  obtain ⟨hspelled, htexts⟩ := flushed_of_runs hdeps hconstructs hruns
  have hflushed : Flushed source := by
    have htext := htexts _ _ hrender
    simp only [source]
    split_ifs
    · have hone : Flush "1;" := ⟨by decide, rfl⟩
      exact htext.append (.line hone)
    · exact htext
  refine ⟨(hflushed.format settings.tabSize).1, ?_, ?_, ?_⟩
  · intro e he hchild hbinding blockText routineText t ht
    rcases (hspelled.element e he hchild _ blockText routineText t ht).2 hbinding with ht | rfl
    · obtain ⟨line, hline, rfl⟩ := ht.exists_flush
      exact ⟨line, hline.feedless, rfl⟩
    · exact ⟨"", List.not_mem_nil, rfl⟩
  · exact fun id info hkind => hspelled.kind id _ hkind
  · have hfile := Scopes.file_of_runs hruns
    rw [← hruns.linked_named.1.file] at hfile
    refine ⟨_, Store.fileText_of_kindOf hfile hrender settings.tabSize, ?_⟩
    have hsource : (if settings.isModule then withTerminator text else text) = source := by
      rw [(htexts _ _ hrender).withTerminator]
    rw [hsource]
    exact (hflushed.format settings.tabSize).2

theorem layout_only_indents_semicolon_in_test :
    let settings : Settings := { isModule := true, defaultDependencies := [], tabSize := 4 }
    let script := Script.ofSource "a" ("String s = \"  \x7b;\"  \nsub f(String t) \x7b\n\n" ++
      "if t.eq(';\x7d ') \x7b\nprint t // p\n\x7d\n\x7d")
    ∃ program log text out, compile settings script = (.ok program, log) ∧
      program.render = .ok text ∧ program.text = .ok out ∧
      (∀ line ∈ (text ++ "1;\n").toList.splitOn '\n', trimBoth line = line) ∧
      List.Forall₂ (Indents 4) ((text ++ "1;\n").toList.splitOn '\n')
        (out.toList.splitOn '\n') := by
  intro settings script
  obtain ⟨program, log, h, hrenders⟩ := exists_of_compile_any settings script
    (fun program => program.render.isOk) (by decide +kernel)
  cases hrender : program.render with
  | error fault =>
    rw [hrender] at hrenders
    cases hrenders
  | ok text =>
    obtain ⟨htrimmed, _, _, out, hout, hindents⟩ := layout_only_indents h hrender
    exact ⟨program, log, text, out, h, hrender, hout, htrimmed, hindents⟩

end LineScript
