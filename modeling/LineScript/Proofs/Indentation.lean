import LineScript.Proofs.Composed

/-!
# Indentation of the generated program

The text of a block is laid out in lines that nest by braces, since everything that a script stores
is. The layout of a compiled script therefore counts its braces exactly and indents every line by
the number of blocks around it.
-/
namespace LineScript

open Text Layout

theorem composes_laid : Composes (Paired true) Laid where
  spelled := Spelled.laid
  append := Laid.append
  block hhead hbody tail htail := by
    refine .block hhead.paired hbody tail ?_
    rw [List.mem_pair] at htail
    rcases htail with rfl | rfl
    · exact fun _ => rfl
    · exact fun _ => rfl
  branch := by
    intro branch test body htest hbody
    have hkeyword : Paired true branch.keyword := by cases branch <;> exact fun _ => rfl
    have hopening : Passes true [] " (" [')'] := fun _ => rfl
    have hclosing : Passes true [')'] ") " [] := fun _ => rfl
    have hhead := (hkeyword.append hopening).append (htest.frame _)
    exact .block (hhead.append hclosing) hbody "" fun _ => rfl

theorem Store.LaidOut.laid_within {s : Store} (h : s.LaidOut) (depth : Nat) :
    (∀ id t, s.bodyWithin depth id = .ok t → Laid t) ∧
      ∀ id t, s.blockWithin depth id = .ok t → Laid t := by
  apply Store.whole_within _ composes_laid
  · intro e he hchild blockText routineText t ht
    exact h.element e he hchild s blockText routineText t ht
  · intro id kind hkind
    have hlaid := h.kind id kind hkind
    cases kind <;> exact hlaid

namespace Layout

theorem withTerminator_unlines (lines : List String) :
    withTerminator (unlines lines) = unlines lines ++ "1;\n" := by
  have hended : unlines lines = "" ∨ (unlines lines).toList.getLast? = some '\n' := by
    rcases lines.eq_nil_or_concat with rfl | ⟨front, last, rfl⟩
    · exact Or.inl rfl
    · refine Or.inr ?_
      rw [List.concat_eq_append, unlines_append, unlines_cons]
      simp [unlines]
  unfold withTerminator
  rw [if_pos hended]

theorem Laid.withTerminator {text : String} (h : Laid text) : Laid (withTerminator text) := by
  have hone : Laid "1;\n" := .line (fun _ => rfl : Paired true "1") ";" fun _ => rfl
  have happend := h.append hone
  obtain ⟨lines, _, rfl⟩ := h 0
  rwa [withTerminator_unlines]

end Layout

section Script

theorem not_mem_of_mem_splitOn {a : Char} {s piece : List Char} (h : piece ∈ s.splitOn a) :
    a ∉ piece := by
  induction s generalizing piece with
  | nil =>
    rw [List.splitOn_nil, List.mem_singleton] at h
    rw [h]
    exact List.not_mem_nil
  | cons c rest ih =>
    rw [List.splitOn_cons_eq_if_modifyHead] at h
    split_ifs at h with hc
    · rcases List.mem_cons.mp h with rfl | h
      · exact List.not_mem_nil
      · exact ih h
    · cases hpieces : rest.splitOn a with
      | nil => exact absurd hpieces (List.splitOn_ne_nil _ _)
      | cons first pieces =>
        rw [hpieces] at h ih
        rcases List.mem_cons.mp h with rfl | h
        · have hne : a ≠ c := fun heq => hc (by rw [heq, beq_self_eq_true])
          simp [hne, ih List.mem_cons_self]
        · exact ih (List.mem_cons_of_mem _ h)

theorem mem_of_mem_dropReturn {c : Char} {line : List Char} (h : c ∈ dropReturn line) :
    c ∈ line := by
  unfold dropReturn at h
  split at h
  · rename_i rest hrest
    rw [← List.mem_reverse, hrest]
    exact List.mem_cons_of_mem _ (List.mem_reverse.mp h)
  · exact h

theorem Script.not_mem_line {script : Script} {line : Nat × String} (h : line ∈ script.lines) :
    '\n' ∉ line.2.toList := by
  obtain ⟨⟨text, number⟩, hmem, rfl⟩ := List.mem_map.mp h
  have htext : text ∈ sourceLines script.content := List.fst_mem_of_mem_zipIdx hmem
  obtain ⟨piece, hpiece, rfl⟩ := List.mem_map.mp htext
  intro hfeed
  rw [String.toList_ofList] at hfeed
  exact not_mem_of_mem_splitOn hpiece (mem_of_mem_dropReturn hfeed)

/-- The lines of a script are tidy, unless one is a branch with a semicolon. -/
theorem Script.tidy_lines {script : Script} {constructs : List Construct}
    (hsemi : ∀ line ∈ script.lines, ∀ branch e,
      Line.classify line.2 = .ok (.condition branch (some e)) → ';' ∉ line.2.toList)
    (h : script.lines.mapM (fun line => Line.classify line.2) = .ok constructs) :
    ∀ c ∈ constructs, c.Tidy := by
  intro c hc
  obtain ⟨line, hline, hclassify⟩ := exists_of_mem_mapM h hc
  have hfeed (c : Char) (hc : c ∈ line.2.toList) : c ≠ '\n' :=
    fun heq => script.not_mem_line hline (heq ▸ hc)
  refine ⟨Line.wellFormed_of_classify hclassify fun c hc => ?_, ?_⟩
  · simp [fits, hfeed c hc]
  · rintro branch e rfl
    refine Line.wellFormed_of_classify hclassify (fun c hc => ?_) e rfl
    have hne : c ≠ ';' := fun heq => hsemi line hline branch e hclassify (heq ▸ hc)
    simp [fits, hfeed c hc, hne]

end Script

theorem Store.fileText_eq {s : Store} {id : BlockId} {info : FileInfo}
    (hkind : s.kindOf id = some (.file info)) (tab : Nat) :
    s.fileText id tab = s.blockText id >>= fun text =>
      pure (format (if info.isModule then withTerminator text else text) tab) := by
  obtain ⟨block, hblock, hfixed⟩ := Option.map_eq_some_iff.mp hkind
  have hok := (s.block_ok id block).mpr hblock
  cases hcase : block.kind with
  | file found =>
    rw [hcase] at hfixed
    obtain rfl := BlockKind.file.inj hfixed
    simp [Store.fileText, hok, hcase, bind, Except.bind]
  | plain | routine _ | condition _ | arrayLoop _ | mapLoop _ | evaluation _ =>
    rw [hcase] at hfixed
    cases hfixed

theorem Store.fileText_of_kindOf {s : Store} {id : BlockId} {info : FileInfo} {text : String}
    (hkind : s.kindOf id = some (.file info)) (h : s.blockText id = .ok text) (tab : Nat) :
    s.fileText id tab = .ok (format (if info.isModule then withTerminator text else text) tab) := by
  rw [Store.fileText_eq hkind, h]
  rfl

/-- What the layout takes in are the lines of the program with its end, and in them it counts
braces exactly: no count is cut off at zero, and none is open at the end. So every line that is not
blank is indented by the number of brace blocks around it. -/
theorem compile_layout_exact {settings : Settings} {script : Script} {program : Program}
    {log : List LogEntry} {text : String} (h : compile settings script = (.ok program, log))
    (hsemi : ∀ line ∈ script.lines, ∀ branch e,
      Line.classify line.2 = .ok (.condition branch (some e)) → ';' ∉ line.2.toList)
    (hrender : program.render = .ok text) :
    let source := if settings.isModule then withTerminator text else text
    let seen := (source.toList.splitOn '\n').map trimBoth
    Exact 0 seen ∧ depthAfter 0 seen = 0 ∧
      ∃ lines, Nests 0 lines ∧ source = unlines (lines.map Prod.snd) ∧
        program.text = .ok (unlines (lines.map (placed settings.tabSize))) := by
  obtain ⟨deps, constructs, final, hdeps, hconstructs, hruns, _, rfl, _⟩ := compile_run h
  intro source seen
  obtain ⟨hlinked, hlaidOut⟩ :=
    Scopes.laidOut_of_runs hdeps hruns (Script.tidy_lines hsemi hconstructs)
  have hlaid : Laid source := by
    have htext := (hlaidOut.laid_within _).2 _ _ hrender
    simp only [source]
    split_ifs
    · exact htext.withTerminator
    · exact htext
  obtain ⟨lines, hnests, hsource⟩ := hlaid 0
  obtain ⟨hlines, hformat⟩ := hnests.format
  have hseen : seen = (lines.map fun line => trimBoth line.2.toList) ++ [[]] := by
    rw [← hlines, ← hsource]
  refine ⟨?_, ?_, lines, hnests, hsource, ?_⟩
  · rw [hseen]
    exact hnests.counted.exact.append (exact_singleton (Nat.zero_le _) (Nat.zero_le _))
  · rw [hseen, depthAfter_append, hnests.counted.after]
    rfl
  · rw [← hformat, ← hsource]
    have hfile := Scopes.file_of_runs hruns
    rw [← hlinked.file] at hfile
    exact Store.fileText_of_kindOf hfile hrender settings.tabSize

theorem compile_layout_exact_quoted_braces :
    ∃ program log text,
      compile { isModule := true, defaultDependencies := [] } (.ofSource "a"
        "String s = \"\x7b;\"\nsub f() \x7b\nif s.eq(\"\x7d\") \x7b\nprint \"\x7b\"\n\x7d\n\x7d") =
        (.ok program, log) ∧
      program.render = .ok text ∧
      Exact 0 (((withTerminator text).toList.splitOn '\n').map trimBoth) ∧
      depthAfter 0 (((withTerminator text).toList.splitOn '\n').map trimBoth) = 0 ∧
      ∃ lines, Nests 0 lines ∧ withTerminator text = unlines (lines.map Prod.snd) ∧
        program.text = .ok (unlines (lines.map (placed 2))) := by
  obtain ⟨program, log, h, hrenders⟩ := exists_of_compile_any
    { isModule := true, defaultDependencies := [] } (.ofSource "a"
      "String s = \"\x7b;\"\nsub f() \x7b\nif s.eq(\"\x7d\") \x7b\nprint \"\x7b\"\n\x7d\n\x7d")
    (fun program => program.render.isOk) (by decide +kernel)
  cases hrender : program.render with
  | error fault =>
    rw [hrender] at hrenders
    cases hrenders
  | ok text =>
    have hcheck : List.all (Script.ofSource "a"
        "String s = \"\x7b;\"\nsub f() \x7b\nif s.eq(\"\x7d\") \x7b\nprint \"\x7b\"\n\x7d\n\x7d").lines
        (fun line => !line.2.toList.contains ';' ||
          (Line.classify line.2).toOption.map Construct.opens == some false) = true := by
      decide +kernel
    have hlayout := compile_layout_exact h (fun line hline branch e hclassify hmem => by
      have hfree := List.all_eq_true.mp hcheck line hline
      rw [hclassify] at hfree
      simp [hmem, Except.toOption, Construct.opens] at hfree) hrender
    simp only [if_true] at hlayout
    exact ⟨program, log, text, h, hrender, hlayout⟩

end LineScript
