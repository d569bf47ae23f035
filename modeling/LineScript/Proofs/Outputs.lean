import LineScript.Proofs.Inputs

/-!
# Outputs of a run

What a build lists as the output of an input holds the text of its program, until a later input of
the same run is written to the same file. The last one written to a file is what it holds in the
end.
-/
namespace LineScript.CommandLine

namespace Turn

/-- The input is compiled, as the disk is at its turn, to a program with this text, which is
written to this path. -/
structure Builds (o : Options) (given : Option Settings) (turn : Turn) (path text : String) :
    Prop where
  result : turn.result o given = .ok (some path)
  compiled : ∃ script settings program, Script.load turn.before.disk turn.path = .ok script ∧
    turn.before.settingsFor o given script = .ok settings ∧
    (compile settings script).1 = .ok program ∧ program.text = .ok text

variable {o : Options} {given : Option Settings} {turn : Turn} {path text : String}

theorem Builds.unique {other : String} (h : turn.Builds o given path text)
    (h' : turn.Builds o given path other) : text = other := by
  obtain ⟨script, settings, program, hload, hsettings, hcompile, htext⟩ := h.compiled
  obtain ⟨script', settings', program', hload', hsettings', hcompile', htext'⟩ := h'.compiled
  obtain rfl := Except.ok.inj (hload.symm.trans hload')
  obtain rfl := Except.ok.inj (hsettings.symm.trans hsettings')
  obtain rfl := Except.ok.inj (hcompile.symm.trans hcompile')
  exact Except.ok.inj (htext.symm.trans htext')

/-- An input either builds an output, whose text comes to the disk, or leaves all that is there; a
build that leaves it has failed. -/
theorem builds_or_extends (o : Options) (given : Option Settings) (turn : Turn) :
    (∃ path text place, turn.Builds o given path text ∧
      (turn.after o given).disk.locate path = .ok place ∧
      turn.before.disk.Rewrites place text (turn.after o given).disk) ∨
    ((∀ path text, ¬ turn.Builds o given path text) ∧
      (o.command = .build → (turn.result o given).isOk = false) ∧
      turn.before.disk.Extends (turn.after o given).disk) := by
  have hends : Progress.Ends o given turn.path turn.before (turn.result o given)
      (turn.after o given).disk := (turn.takes o given).ends
  generalize hresult : turn.result o given = result at hends
  generalize (turn.after o given).disk = d at hends ⊢
  have hnot (h : ∀ path, result ≠ .ok (some path)) (path text : String) :
      ¬ turn.Builds o given path text :=
    fun hbuilds => h path (hresult.symm.trans hbuilds.result)
  cases hends with
  | unread _ => exact Or.inr ⟨hnot (by simp), fun _ => rfl, .refl _⟩
  | failed _ hdisk _ => exact Or.inr ⟨hnot (by simp), fun _ => rfl, hdisk⟩
  | checked _ hcommand =>
    refine Or.inr ⟨hnot (by simp), fun hbuild => ?_, .refl _⟩
    rw [hcommand] at hbuild
    cases hbuild
  | built hload _ hsettings hcompile htext hplace hdisk =>
    exact Or.inl ⟨_, _, _, ⟨hresult, _, _, _, hload, hsettings, hcompile, htext⟩, hplace, hdisk⟩

end Turn

section Run

variable {o : Options} {given : Option Settings} {p : Progress} {paths : List String}

/-- A text stays where it is unless a program is written to its place. -/
theorem get?_compileInputs {place : Place} {entry : DiskEntry}
    (h : p.disk.get? place = some entry)
    (hothers : ∀ turn ∈ turns o given p paths, ∀ path text, turn.Builds o given path text →
      (compileInputs o given p paths).disk.locate path ≠ .ok place) :
    (compileInputs o given p paths).disk.get? place = some entry := by
  induction paths generalizing p with
  | nil => exact h
  | cons path rest ih =>
    rw [turns, List.forall_mem_cons] at hothers
    obtain ⟨hfirst, hrest⟩ := hothers
    refine ih ?_ hrest
    have hlater := follows_compileInputs o given (p.compileInput o given path) rest
    rcases Turn.builds_or_extends o given ⟨path, p⟩ with
      ⟨output, text, target, hbuilds, hlocate, hrewrites⟩ | ⟨_, _, hextends⟩
    · have hplace : place ≠ target := by
        rintro rfl
        exact hfirst output text hbuilds (hlater.locate hlocate)
      exact hrewrites.kept place entry hplace h
    · exact hextends.kept place entry h

/-- An output holds the text of its input's program unless a later one is written to its file. -/
theorem read_compileInputs {earlier later : List Turn} {turn : Turn} {path text : String}
    (h : turns o given p paths = earlier ++ turn :: later) (hbuilds : turn.Builds o given path text)
    (hothers : ∀ other ∈ later, ∀ path' text', other.Builds o given path' text' →
      (compileInputs o given p paths).disk.locate path' ≠
        (compileInputs o given p paths).disk.locate path) :
    (compileInputs o given p paths).disk.read path = .ok text := by
  obtain ⟨_, rest, rfl, hrun⟩ := turns_split h
  rw [hrun] at hothers ⊢
  rcases turn.builds_or_extends o given with
    ⟨output, written, place, hbuilt, hlocate, hrewrites⟩ | ⟨hnone, _, _⟩
  · obtain rfl := Option.some.inj (Except.ok.inj (hbuilt.result.symm.trans hbuilds.result))
    obtain rfl := hbuilt.unique hbuilds
    have hfinal := (follows_compileInputs o given (turn.after o given) rest).locate hlocate
    refine (Disk.read_ok_iff _ _ _).mpr ⟨place, hfinal, ?_⟩
    refine get?_compileInputs hrewrites.written fun other hother path' text' hbuilds' => ?_
    rw [← hfinal]
    exact hothers other hother path' text' hbuilds'
  · exact absurd hbuilds (hnone path text)

end Run

/-- What the outputs of a run hold when it is done. -/
structure OutputsKept (o : Options) (given : Option Settings) (d : Disk) (paths : List String) :
    Prop where
  finished : runOptions o d = (compileInputs o given (.start d) paths).finish o
  /-- The inputs have their outcomes in order. Where it is good, it lists the path that the program
  of the input has been written to. -/
  listed : List.Forall₂
    (fun turn outcome => outcome.input = turn.path ∧ (outcome.ok = true →
      ∃ path text, outcome.output = some path ∧ turn.Builds o given path text))
    (turns o given (.start d) paths) (compileInputs o given (.start d) paths).outcomes
  /-- An output holds the text of its own program, if no later output is the same file. -/
  own : ∀ earlier turn later path text,
    turns o given (.start d) paths = earlier ++ turn :: later → turn.Builds o given path text →
    (∀ other ∈ later, ∀ path' text', other.Builds o given path' text' →
      (runOptions o d).disk.locate path' ≠ (runOptions o d).disk.locate path) →
    (runOptions o d).disk.read path = .ok text
  /-- In any case it holds the text of the last program that was written to its file. -/
  last : ∀ earlier turn later path text,
    turns o given (.start d) paths = earlier ++ turn :: later → turn.Builds o given path text →
    ∃ front final rest path' text', turn :: later = front ++ final :: rest ∧
      final.Builds o given path' text' ∧
      (runOptions o d).disk.locate path' = (runOptions o d).disk.locate path ∧
      (∀ other ∈ rest, ∀ path' text', other.Builds o given path' text' →
        (runOptions o d).disk.locate path' ≠ (runOptions o d).disk.locate path) ∧
      (runOptions o d).disk.read path = .ok text'

/-- After a build, the path that is listed for an input holds the text of its own program, unless a
later input of the run is written to the same file: then it holds the text of the last of them. -/
theorem build_keeps_outputs {o : Options} {d : Disk} {given : Option Settings}
    {paths : List String} (hcommand : o.command = .build)
    (hgiven : o.settings.mapM (Settings.load d) = .ok given)
    (hpaths : inputPaths o d = .ok paths) : OutputsKept o given d paths := by
  have hfinished := runOptions_eq hgiven hpaths
  have hdisk : (runOptions o d).disk = (compileInputs o given (.start d) paths).disk := by
    rw [hfinished, Progress.finish_disk]
  have hown := @read_compileInputs o given (.start d) paths
  refine ⟨hfinished, ?_, ?_, ?_⟩
  · refine (outcomes_start o given d paths).imp fun turn outcome hshow =>
      ⟨hshow.input, fun hok => ?_⟩
    rcases turn.builds_or_extends o given with ⟨path, text, _, hbuilds, _⟩ | ⟨_, hfailed, _⟩
    · exact ⟨path, text, by rw [hshow.output, hbuilds.result]; rfl, hbuilds⟩
    · rw [hshow.ok, hfailed hcommand] at hok
      cases hok
  · rw [hdisk]
    exact fun earlier turn later path text => hown
  · intro earlier turn later path text hturns hbuilds
    rw [hdisk]
    have hmem : ∃ other ∈ turn :: later, ∃ path' text', other.Builds o given path' text' ∧
        (compileInputs o given (.start d) paths).disk.locate path' =
          (compileInputs o given (.start d) paths).disk.locate path :=
      ⟨turn, List.mem_cons_self, path, text, hbuilds, rfl⟩
    obtain ⟨front, final, rest, hsplit, ⟨path', text', hfinal, hlocate⟩, hrest⟩ :=
      exists_last_of_mem hmem
    have hothers : ∀ other ∈ rest, ∀ path' text', other.Builds o given path' text' →
        (compileInputs o given (.start d) paths).disk.locate path' ≠
          (compileInputs o given (.start d) paths).disk.locate path :=
      fun other hother path' text' hbuilds' heq => hrest other hother ⟨path', text', hbuilds', heq⟩
    refine ⟨front, final, rest, path', text', hsplit, hfinal, hlocate, hothers, ?_⟩
    rw [← Disk.read_congr hlocate]
    rw [hsplit, ← List.append_assoc] at hturns
    refine hown hturns hfinal ?_
    rw [hlocate]
    exact hothers

theorem build_keeps_outputs_beside_inputs :
    let o : Options :=
      { command := .build, inputs := ["a/x.sea", "b/x.sea"], settings := some "s.json" }
    let given : Option Settings := some { defaultDependencies := [] }
    let d := namesakes "exit 1" "exit 2"
    o.settings.mapM (Settings.load d) = .ok given ∧
      inputPaths o d = .ok ["a/x.sea", "b/x.sea"] ∧
      OutputsKept o given d ["a/x.sea", "b/x.sea"] ∧
      (runOptions o d).disk.read "a/x.pl" = .ok "\nexit(1);\n" ∧
      (runOptions o d).disk.read "b/x.pl" = .ok "\nexit(2);\n" :=
  ⟨by decide +kernel, by decide +kernel,
    build_keeps_outputs rfl (by decide +kernel) (by decide +kernel),
    by decide +kernel, by decide +kernel⟩

/-- In one folder the outputs of namesakes are one file: both are listed, and the first is lost. -/
theorem namesake_output_lost :
    let o : Options :=
      { command := .build, inputs := ["a/x.sea", "b/x.sea"], settings := some "s.json",
        output := some "out" }
    let given : Option Settings := some { defaultDependencies := [] }
    let d := namesakes "exit 1" "exit 2"
    o.settings.mapM (Settings.load d) = .ok given ∧
      inputPaths o d = .ok ["a/x.sea", "b/x.sea"] ∧
      (compileInputs o given (.start d) ["a/x.sea", "b/x.sea"]).outcomes =
        [⟨"a/x.sea", some "out/x.pl", 1, true⟩, ⟨"b/x.sea", some "out/x.pl", 1, true⟩] ∧
      ∃ text, Turn.Builds o given ⟨"a/x.sea", .start d⟩ "out/x.pl" text ∧
        (runOptions o d).disk.read "out/x.pl" ≠ .ok text := by
  refine ⟨by decide +kernel, by decide +kernel, by decide +kernel, "\nexit(1);\n", ⟨?_, ?_⟩,
    by decide +kernel⟩
  · exact except_toOption_eq_some (by decide +kernel)
  · obtain ⟨program, _, hcompile, htext⟩ := exists_of_compile_any
      { defaultDependencies := [] } ⟨"x.sea", "a/x.sea", "exit 1"⟩
      (fun program => program.text.toOption == some "\nexit(1);\n") (by decide +kernel)
    exact ⟨⟨"x.sea", "a/x.sea", "exit 1"⟩, { defaultDependencies := [] }, program,
      by decide +kernel, by decide +kernel, by rw [hcompile],
      except_toOption_eq_some (eq_of_beq htext)⟩

end LineScript.CommandLine
