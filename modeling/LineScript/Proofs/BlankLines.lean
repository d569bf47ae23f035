import LineScript.Proofs.Gaps
import LineScript.Proofs.Returns

/-!
# Blank lines

A blank line can stand wherever another element could: everywhere but in a block that has returned.
It leaves the text of a program as it is, but for a blank line more. Only a plain block without
elements shows it, as such a block has no text by itself.
-/
namespace LineScript

open Layout

/-- Those of the lines that are not blank. -/
def Text.solid (lines : List (List Char)) : List String :=
  (lines.filter fun line => !line.all isBlank).map String.ofList

theorem Text.solid_append (lines more : List (List Char)) :
    solid (lines ++ more) = solid lines ++ solid more := by
  rw [solid, List.filter_append, List.map_append]
  rfl

/-- The lines of a text that are not blank. -/
def Text.solidLines (text : String) : List String :=
  solid (text.toList.splitOn '\n')

namespace Layout

theorem splitOn_of_endsLine {front : String} (h : EndsLine front) :
    ∃ lines, ∀ back : String, (front ++ back).toList.splitOn '\n' =
      lines ++ back.toList.splitOn '\n' := by
  rcases h with rfl | ⟨front, rfl⟩
  · exact ⟨[], fun back => by rw [String.empty_append, List.nil_append]⟩
  · refine ⟨front.toList.splitOn '\n', fun back => ?_⟩
    have hlist : (front ++ "\n" ++ back).toList = front.toList ++ '\n' :: back.toList := by
      simp
    rw [hlist]
    exact List.splitOnP_append_cons (p := (· == '\n')) _ _ (beq_self_eq_true '\n')

/-- What follows the end of a line is laid out by itself, at some depth. -/
theorem splitOn_format_append {front : String} (h : EndsLine front) (tab : Nat) :
    ∃ above depth, ∀ back : String, (format (front ++ back) tab).toList.splitOn '\n' =
      above ++ indentLines tab depth ((back.toList.splitOn '\n').map Text.trimBoth) := by
  obtain ⟨lines, hlines⟩ := splitOn_of_endsLine h
  refine ⟨indentLines tab 0 (lines.map Text.trimBoth), depthAfter 0 (lines.map Text.trimBoth), ?_⟩
  intro back
  rw [splitOn_format, hlines, List.map_append, indentLines_append]

/-- The braces of a plain block with a blank line in it. -/
theorem indentLines_braces (tab depth : Nat) (rest : List (List Char)) :
    indentLines tab depth (['\x7b'] :: [] :: ['\x7d', ';'] :: rest) =
      (List.replicate (tab * depth) ' ' ++ ['\x7b']) :: [] ::
        (List.replicate (tab * depth) ' ' ++ ['\x7d', ';']) :: indentLines tab depth rest := by
  have hopens : scan ['\x7b'] = ⟨1, 0, 0⟩ := by decide
  have hcloses : scan ['\x7d', ';'] = ⟨0, 1, 1⟩ := by decide
  simp [indentLines, hopens, hcloses]

/-- A blank line more at the start of a line. -/
theorem solidLines_format_feed {front : String} (h : EndsLine front) (back : String) (tab : Nat) :
    Text.solidLines (format (front ++ "\n" ++ back) tab) =
      Text.solidLines (format (front ++ back) tab) := by
  obtain ⟨above, depth, hlines⟩ := splitOn_format_append h tab
  have hsplit : ("\n" ++ back).toList.splitOn '\n' = [] :: back.toList.splitOn '\n' := by
    rw [String.toList_append]
    exact List.splitOnP_append_cons (p := (· == '\n')) [] _ (beq_self_eq_true '\n')
  have htrim : Text.trimBoth [] = [] := rfl
  rw [Text.solidLines, Text.solidLines, String.append_assoc, hlines, hlines, hsplit,
    List.map_cons, htrim, Text.solid_append, Text.solid_append]
  rfl

/-- A plain block with a blank line in it more at the start of a line. -/
theorem solidLines_format_braces {front : String} (h : EndsLine front) (back : String)
    (tab : Nat) :
    ∃ above below depth, Text.solidLines (format (front ++ back) tab) = above ++ below ∧
      Text.solidLines (format (front ++ (inBraces "\n" ++ ";\n") ++ back) tab) =
        above ++ [Text.repeated (tab * depth) ' ' ++ "\x7b",
          Text.repeated (tab * depth) ' ' ++ "\x7d;"] ++ below := by
  obtain ⟨above, depth, hlines⟩ := splitOn_format_append h tab
  have hsplit : ((inBraces "\n" ++ ";\n" ++ back).toList.splitOn '\n').map Text.trimBoth =
      ['\x7b'] :: [] :: ['\x7d', ';'] :: (back.toList.splitOn '\n').map Text.trimBoth := by
    rw [String.toList_append]
    exact congrArg (List.map Text.trimBoth) (List.splitOnP_append_cons (p := (· == '\n'))
      ['\x7b', '\n', '\n', '\x7d', ';'] _ (beq_self_eq_true '\n'))
  have hsolid (rest : List (List Char)) :
      Text.solid ((List.replicate (tab * depth) ' ' ++ ['\x7b']) :: [] ::
        (List.replicate (tab * depth) ' ' ++ ['\x7d', ';']) :: rest) =
          [Text.repeated (tab * depth) ' ' ++ "\x7b", Text.repeated (tab * depth) ' ' ++ "\x7d;"] ++
            Text.solid rest := by
    have hopening : Text.isBlank '\x7b' = false := by decide
    have hclosing : Text.isBlank '\x7d' = false := by decide
    simp [Text.solid, Text.repeated, hopening, hclosing, String.ofList_append]
  refine ⟨Text.solid above,
    Text.solid (indentLines tab depth ((back.toList.splitOn '\n').map Text.trimBoth)), depth,
    ?_, ?_⟩
  · rw [Text.solidLines, hlines, Text.solid_append]
  · rw [Text.solidLines, String.append_assoc, hlines, hsplit, Text.solid_append, List.append_assoc,
      ← hsolid, ← indentLines_braces]

end Layout

namespace Store

variable {s t : Store}

/-- The texts of elements end with a line. -/
theorem Spelled.endsLine (h : s.Spelled fun test => '\n' ∉ test.toList) {depth : Nat}
    {es : List Element} {text : String} (hstored : ∀ e ∈ es, s.Stores e)
    (htext : s.elementsWithin depth es = .ok text) : EndsLine text := by
  have helements (e : Element) (he : s.Stores e) (hchild : e.child? = none) blockText routineText t
      (ht : s.elementTextBy blockText routineText e = .ok t) : Flushed t :=
    (h.element e he hchild _ blockText routineText t ht).1.flushed
  obtain ⟨hbodies, hblocks⟩ := whole_within h.kind composes_flushed helements depth
  have hbody : s.bodyTextBy (s.blockWithin depth) (s.routineTextBy (s.bodyWithin depth))
      ⟨.plain, es, false, none⟩ = .ok text := htext
  have hflushed : Flushed text := by
    refine whole_bodyText h.kind composes_flushed helements hblocks ?_ ?_ hbody
    · exact fun _ _ => braced_routineText h.kind hbodies
    · exact hstored
  exact hflushed.endsLine

/-- A block has no return as long as it is open. -/
theorem ReturnsLast.closed_iff (h : s.ReturnsLast) {id : BlockId} {block : Block}
    (hblock : s.get? id = some block) : block.closed = false ↔ s.returnsOf id = [] := by
  rw [returnsOf, hblock]
  simp only [Option.toList_some, List.flatMap_singleton, List.filterMap_eq_nil_iff]
  cases h id block hblock with
  | unclosed hopen helements _ => exact iff_of_true hopen helements
  | @closed front given hclosed helements _ _ _ =>
    rw [hclosed, helements]
    refine iff_of_false (by simp) fun hnone => ?_
    cases hnone (.statement (.giveBack given)) (by simp)

end Store

theorem Scopes.after_eq_some {settings : Settings} {script : Script} {opened started s : Scopes}
    {n : Nat}
    (hopen : Scopes.openFile script.stem settings.isModule settings.defaultDependencies =
      .ok opened)
    (happend : Succeeds (Session.append (.text "\n")) opened () started)
    (hfront : Scopes.applyLines script.name (script.lines.take n) started = (.ok (), s)) :
    Scopes.after settings script n = some s := by
  have hrun : (Session.append (.text "\n")).run opened = (.ok (), started) := happend
  simp only [Scopes.after, hopen, hrun, hfront]

section Scripts

variable {settings : Settings} {script other : Script} {n : Nat}

theorem Script.InsertsBlank.stem (h : script.InsertsBlank other n) : other.stem = script.stem := by
  rw [Script.stem, Script.stem, h.name, h.path]

/-- With a script that has a blank line more, the script without it compiles. -/
theorem Script.InsertsBlank.compiles_without (h : script.InsertsBlank other n) {program' : Program}
    {log' : List LogEntry} (hcompile' : compile settings other = (.ok program', log')) :
    ∃ program log s, compile settings script = (.ok program, log) ∧
      Scopes.after settings script n = some s ∧ s.store.returnsOf s.current.block = [] ∧
      program.store.Echoes (spacing s.current.block) program'.store := by
  obtain ⟨opened, deps, final', hopen, happend, _, hlines', houter', rfl⟩ :=
    compile_start hcompile'
  rw [h.stem] at hopen happend hlines'
  rw [h.name] at hlines'
  obtain ⟨s, final, block, hfront, hlines, hblock, hblockOpen, hechoes⟩ := h.runs hlines'
  have houter : final.outer = [] := by
    rw [hechoes.outer] at houter'
    exact List.map_eq_nil_iff.mp (List.append_eq_nil_iff.mp houter').1
  obtain ⟨log, hcompile⟩ := compile_of_lines hopen happend hlines houter
  obtain ⟨constructs, _, hruns⟩ := Scopes.applyLines_ok hfront
  refine ⟨_, log, s, hcompile, Scopes.after_eq_some hopen happend hfront, ?_, hechoes.store⟩
  exact ((Scopes.returnsLast_of_runs hruns).closed_iff hblock).mp hblockOpen

/-- Where the innermost block has not returned, the script compiles with the blank line. -/
theorem Script.InsertsBlank.compiles_with (h : script.InsertsBlank other n) {program : Program}
    {log : List LogEntry} (hcompile : compile settings script = (.ok program, log))
    (hreturns : ∀ s, Scopes.after settings script n = some s →
      s.store.returnsOf s.current.block = []) :
    ∃ program' log', compile settings other = (.ok program', log') := by
  obtain ⟨opened, deps, final, hopen, happend, _, hlines, houter, rfl⟩ := compile_start hcompile
  have hsplit := hlines
  rw [← List.take_append_drop n script.lines] at hsplit
  obtain ⟨s, hfront, _⟩ := (Scopes.applyLines_append _ _ _ _ _).mp hsplit
  obtain ⟨constructs, _, hruns⟩ := Scopes.applyLines_ok hfront
  obtain ⟨block, hblock⟩ := Store.exists_get?
    (hruns.linked_named.1.openBlocks_lt s.current.block List.mem_cons_self)
  have hblockOpen := ((Scopes.returnsLast_of_runs hruns).closed_iff hblock).mpr
    (hreturns s (Scopes.after_eq_some hopen happend hfront))
  obtain ⟨final', hlines', hechoes⟩ := h.runs_of_open hfront hlines hblock hblockOpen
  rw [← h.stem] at hopen happend hlines'
  rw [← h.name] at hlines'
  obtain ⟨log', hcompile'⟩ := compile_of_lines hopen happend hlines' (hechoes.outer_eq_nil houter)
  exact ⟨_, log', hcompile'⟩

end Scripts

section Texts

variable {settings : Settings} {script other : Script} {program program' : Program}
  {log log' : List LogEntry} {p : BlockId}

theorem Store.Echoes.alike {s t : Store} (h : s.Echoes (spacing p) t) : s.Alike (Spaced p) t where
  fresh := h.fresh
  size := h.size
  nonempty := Nat.zero_lt_of_lt h.bounded
  block id b hb := by
    obtain ⟨b', hb', hechoes⟩ := h.block id b hb
    exact ⟨b', hb', Block.alike_iff_echoes.mpr hechoes⟩

/-- The text of a program is the layout of what it renders to, with the end of a module. -/
theorem Program.text_eq (h : compile settings script = (.ok program, log)) :
    program.text = program.render >>= fun text =>
      pure (format (if settings.isModule then text ++ "1;\n" else text) settings.tabSize) := by
  obtain ⟨deps, constructs, final, hdeps, hconstructs, hruns, _, rfl, _⟩ := compile_run h
  obtain ⟨_, htexts⟩ := flushed_of_runs hdeps hconstructs hruns
  have hfile := Scopes.file_of_runs hruns
  rw [← hruns.linked_named.1.file] at hfile
  rw [Program.text, Program.render, Store.fileText_eq hfile]
  refine except_bind_congr rfl fun text htext => ?_
  rw [(htexts _ _ htext).withTerminator]

theorem Program.render_gap (h : compile settings script = (.ok program, log))
    (h' : compile settings other = (.ok program', log'))
    (hechoes : program.store.Echoes (spacing p) program'.store) :
    ∃ block, program.store.get? p = some block ∧
      Gap block.spacer program.render program'.render := by
  obtain ⟨deps, constructs, final, hdeps, hconstructs, hruns, houter, rfl, _⟩ := compile_run h
  obtain ⟨_, _, final', _, _, hruns', _, rfl, _⟩ := compile_run h'
  obtain ⟨hlinked, hsettled⟩ := Scopes.settled_of_runs hruns
  obtain ⟨hspelled, _⟩ := flushed_of_runs hdeps hconstructs hruns
  obtain ⟨block, hblock⟩ := Store.exists_get? (Nat.lt_of_succ_le hechoes.bounded)
  have hdepth : final'.store.depthBound = final.store.depthBound :=
    congrArg (· + 1) hechoes.size
  have hgap := hechoes.alike.gap_within hsettled (fun _ _ _ => hspelled.endsLine) hlinked.held
    hblock (hlinked.nestsWithin 0 hlinked.zero_lt_size)
    (hlinked.reachable houter p (Store.lt_size_of_get? hblock))
  refine ⟨block, hblock, ?_⟩
  rw [Program.render, Program.render, Store.blockText, Store.blockText, hdepth, hlinked.file,
    hruns'.linked_named.1.file]
  exact hgap.1

/-- The texts of programs of which one has a gap. -/
theorem Program.text_gap {piece : String} (h : compile settings script = (.ok program, log))
    (h' : compile settings other = (.ok program', log'))
    (hgap : Gap piece program.render program'.render) :
    (∃ fault, program.text = .error fault ∧ program'.text = .error fault) ∨
      ∃ front back, EndsLine front ∧
        program.text = .ok (format (front ++ back) settings.tabSize) ∧
        program'.text = .ok (format (front ++ piece ++ back) settings.tabSize) := by
  rw [Program.text_eq h, Program.text_eq h']
  generalize program.render = x at hgap
  generalize program'.render = y at hgap
  cases hgap with
  | error fault => exact Or.inl ⟨fault, rfl, rfl⟩
  | @ok front hfront back =>
    cases settings.isModule with
    | false => exact Or.inr ⟨front, back, hfront, rfl, rfl⟩
    | true =>
      refine Or.inr ⟨front, back ++ "1;\n", hfront, ?_, ?_⟩
      · rw [← String.append_assoc]
        rfl
      · rw [← String.append_assoc]
        rfl

end Texts

/-- A blank line more changes whether a script compiles only in a block that has returned: there it
is refused. Otherwise the text of the program fails or succeeds as before, and its lines that are
not blank stay the same, but for the braces of a plain block that holds nothing else. -/
theorem insert_blank_line {settings : Settings} {script other : Script} {n : Nat}
    (h : script.InsertsBlank other n) :
    ((∃ program log, compile settings other = (.ok program, log)) ↔
        (∃ program log, compile settings script = (.ok program, log)) ∧
          ∀ s, Scopes.after settings script n = some s →
            s.store.returnsOf s.current.block = []) ∧
      ∀ program program' log log', compile settings script = (.ok program, log) →
        compile settings other = (.ok program', log') →
        (∃ fault, program.text = .error fault ∧ program'.text = .error fault) ∨
          ∃ text text' s block, program.text = .ok text ∧ program'.text = .ok text' ∧
            Scopes.after settings script n = some s ∧
            program.store.get? s.current.block = some block ∧
            ((block.kind = .plain → block.elements ≠ []) →
              Text.solidLines text' = Text.solidLines text) ∧
            (block.kind = .plain → block.elements = [] →
              ∃ above below depth, Text.solidLines text = above ++ below ∧
                Text.solidLines text' = above ++
                  [Text.repeated (settings.tabSize * depth) ' ' ++ "\x7b",
                    Text.repeated (settings.tabSize * depth) ' ' ++ "\x7d;"] ++ below) := by
  constructor
  · constructor
    · rintro ⟨program', log', hcompile'⟩
      obtain ⟨program, log, s, hcompile, hafter, hreturns, _⟩ := h.compiles_without hcompile'
      refine ⟨⟨program, log, hcompile⟩, fun s' hafter' => ?_⟩
      obtain rfl := Option.some.inj (hafter.symm.trans hafter')
      exact hreturns
    · rintro ⟨⟨program, log, hcompile⟩, hreturns⟩
      exact h.compiles_with hcompile hreturns
  · intro program program' log log' hcompile hcompile'
    obtain ⟨_, _, s, hcompiled, hafter, _, hechoes⟩ := h.compiles_without hcompile'
    obtain rfl := Except.ok.inj (congrArg Prod.fst (hcompiled.symm.trans hcompile))
    obtain ⟨block, hblock, hgap⟩ := Program.render_gap hcompile hcompile' hechoes
    rcases Program.text_gap hcompile hcompile' hgap with
      hfault | ⟨front, back, hfront, htext, htext'⟩
    · exact Or.inl hfault
    · refine Or.inr ⟨_, _, s, block, htext, htext', hafter, hblock, ?_, ?_⟩
      · intro hsome
        rw [Block.spacer_eq_feed hsome]
        exact solidLines_format_feed hfront back settings.tabSize
      · intro hplain hnil
        have hspacer : block.spacer = inBraces "\n" ++ ";\n" := by
          rw [Block.spacer, hplain, hnil]
        rw [hspacer]
        exact solidLines_format_braces hfront back settings.tabSize

theorem insert_blank_line_between_branches :
    let script := Script.ofSource "a" "Int a = 1\nif a \x7b\nprint a\n\x7d\nelse \x7b\n\x7d"
    let other := Script.ofSource "a" "Int a = 1\nif a \x7b\nprint a\n\x7d\n \t\nelse \x7b\n\x7d"
    script.InsertsBlank other 4 ∧
      ∃ program program' log log' text text', compile {} script = (.ok program, log) ∧
        compile {} other = (.ok program', log') ∧ program.text = .ok text ∧
        program'.text = .ok text' ∧ Text.solidLines text' = Text.solidLines text := by
  intro script other
  have h : script.InsertsBlank other 4 := ⟨rfl, rfl, " \t", by decide, by decide +kernel⟩
  refine ⟨h, ?_⟩
  obtain ⟨program, log, hcompile, hcheck⟩ := exists_of_compile_any {} script
    (fun program => program.text.isOk && program.store.blocks.all fun b => b.kind.label != "block")
    (by decide +kernel)
  obtain ⟨program', log', hcompile', _⟩ := exists_of_compile_any {} other (fun _ => true)
    (by decide +kernel)
  rw [Bool.and_eq_true] at hcheck
  rcases (insert_blank_line h).2 program program' log log' hcompile hcompile' with
    ⟨fault, hfault, _⟩ | ⟨text, text', s, block, htext, htext', _, hblock, hsame, _⟩
  · rw [hfault] at hcheck
    cases hcheck.1
  · refine ⟨program, program', log, log', text, text', hcompile, hcompile', htext, htext', ?_⟩
    refine hsame fun hplain => ?_
    have hlabel := Array.all_eq_true_iff_forall_mem.mp hcheck.2 block (Array.mem_of_getElem? hblock)
    rw [hplain] at hlabel
    cases hlabel

/-- A routine that has returned takes no blank line, and a plain block shows that it has one. -/
theorem blank_line_changes_program :
    let settings : Settings := { defaultDependencies := [] }
    let script := Script.ofSource "a" "sub f() \x7b\nreturn\n\x7d"
    let other := Script.ofSource "a" "sub f() \x7b\nreturn\n\n\x7d"
    let hollow := Script.ofSource "a" "\x7b\n\x7d"
    let filled := Script.ofSource "a" "\x7b\n\n\x7d"
    (script.InsertsBlank other 2 ∧ (∃ program log, compile settings script = (.ok program, log)) ∧
        ∀ program log, compile settings other ≠ (.ok program, log)) ∧
      hollow.InsertsBlank filled 1 ∧
        ∃ program program' log log', compile settings hollow = (.ok program, log) ∧
          compile settings filled = (.ok program', log') ∧ program.text = .ok "\n" ∧
          program'.text = .ok "\n\x7b\n\n\x7d;\n" := by
  intro settings script other hollow filled
  constructor
  · obtain ⟨program, log, hcompile, _⟩ := exists_of_compile_any settings script (fun _ => true)
      (by decide +kernel)
    refine ⟨⟨rfl, rfl, "", rfl, by decide +kernel⟩, ⟨program, log, hcompile⟩, ?_⟩
    intro program' log' heq
    have hrefused : (compile settings other).1.isOk = false := by decide +kernel
    rw [heq] at hrefused
    cases hrefused
  · obtain ⟨program, log, hcompile, htext⟩ := exists_of_compile_any settings hollow
      (fun program => program.text.toOption == some "\n") (by decide +kernel)
    obtain ⟨program', log', hcompile', htext'⟩ := exists_of_compile_any settings filled
      (fun program => program.text.toOption == some "\n\x7b\n\n\x7d;\n") (by decide +kernel)
    exact ⟨⟨rfl, rfl, "", rfl, by decide +kernel⟩, program, program', log, log', hcompile,
      hcompile', except_toOption_eq_some (beq_iff_eq.mp htext),
      except_toOption_eq_some (beq_iff_eq.mp htext')⟩

end LineScript
