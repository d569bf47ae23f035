import LineScript.CommandLine.Run
import LineScript.Proofs.Collected
import LineScript.Proofs.Disks
import LineScript.Proofs.Places

/-!
# Inputs of a run

A run compiles its inputs one after the other, each on the disk that those before it have left.
`Progress.Ends` says what the compilation of a script can come to. What an input adds to the run
(its outcome, its report, its source and its output) is derived from that, and then what a whole
run adds up to.
-/
namespace LineScript

theorem Program.write_ok {program : Program} {folder extension path : String} {size : Nat}
    {d e : Disk} (h : program.write folder extension d = (.ok (path, size), e)) :
    ∃ text, program.text = .ok text ∧ d.write path text = (.ok (), e) := by
  unfold Program.write Store.writeFile at h
  split at h
  · cases congrArg Prod.fst h
  · rename_i name text hpair
    simp only [except_bind_ok, except_pure_ok, Prod.mk.injEq] at hpair
    obtain ⟨_, _, _, htext, rfl, rfl⟩ := hpair
    dsimp only at h
    split at h
    · rename_i written hwritten
      obtain ⟨hresult, rfl⟩ := Prod.mk.inj h
      obtain ⟨rfl, _⟩ := Prod.mk.inj (Except.ok.inj hresult)
      exact ⟨_, htext, hwritten⟩
    · cases congrArg Prod.fst h

theorem Program.write_error {program : Program} {folder extension : String} {fault : Fault}
    {d e : Disk} (h : program.write folder extension d = (.error fault, e)) : d.Extends e := by
  unfold Program.write Store.writeFile at h
  split at h
  · obtain ⟨_, rfl⟩ := Prod.mk.inj h
    exact .refl d
  · dsimp only at h
    split at h
    · cases congrArg Prod.fst h
    · rename_i hrefused
      obtain ⟨_, rfl⟩ := Prod.mk.inj h
      exact Disk.extends_of_write hrefused

namespace CommandLine

namespace Progress

/-- What comes of an input: it cannot be read; or it has a fault, which leaves new folders at
most; or it is checked, which changes nothing; or the text of its program is in a file. -/
inductive Ends (o : Options) (given : Option Settings) (path : String) (p : Progress) :
    Except Diagnostic (Option String) → Disk → Prop
  | unread {fault : Fault} (hload : Script.load p.disk path = .error fault) :
      Ends o given path p (.error (.ofFault fault)) p.disk
  | failed {script : Script} {diagnostic : Diagnostic} {d : Disk}
      (hload : Script.load p.disk path = .ok script) (hdisk : p.disk.Extends d)
      (hplace : ∀ l, diagnostic.location = some l →
        l.file = script.name ∧ ∃ text, (l.line, text) ∈ script.lines) :
      Ends o given path p (.error diagnostic) d
  | checked {script : Script} (hload : Script.load p.disk path = .ok script)
      (hcommand : o.command = .check) : Ends o given path p (.ok none) p.disk
  | built {script : Script} {settings : Settings} {program : Program} {text output : String}
      {place : Place} {d : Disk} (hload : Script.load p.disk path = .ok script)
      (hcommand : o.command = .build) (hsettings : p.settingsFor o given script = .ok settings)
      (hcompile : (compile settings script).1 = .ok program) (htext : program.text = .ok text)
      (hplace : d.locate output = .ok place) (hdisk : p.disk.Rewrites place text d) :
      Ends o given path p (.ok (some output)) d

/-- Nothing has changed but the disk and what was printed. -/
structure Continues (p q : Progress) : Prop where
  reports : q.reports = p.reports
  outcomes : q.outcomes = p.outcomes
  sources : q.sources = p.sources

variable {o : Options} {given : Option Settings} {p : Progress}

theorem dump_ok {q : Progress} {program : Program} (h : p.dump o program = .ok q) :
    q.disk = p.disk ∧ Continues p q := by
  unfold dump at h
  split at h
  · obtain rfl := Except.ok.inj h
    exact ⟨rfl, rfl, rfl, rfl⟩
  · obtain rfl := Except.ok.inj h
    exact ⟨rfl, rfl, rfl, rfl⟩
  · rw [except_bind_ok] at h
    obtain ⟨text, _, h⟩ := h
    obtain rfl := Except.ok.inj h
    exact ⟨rfl, rfl, rfl, rfl⟩

/-- A fault that is not placed. -/
theorem Ends.unplaced {path : String} {script : Script} {d : Disk} (fault : Fault)
    (hload : Script.load p.disk path = .ok script) (hdisk : p.disk.Extends d) :
    Ends o given path p (.error (.ofFault fault)) d :=
  .failed hload hdisk fun l hl => by cases hl

theorem compileScript_ends {path : String} {script : Script}
    (hload : Script.load p.disk path = .ok script) :
    Ends o given path p (p.compileScript o given script).1
        (p.compileScript o given script).2.disk ∧
      Continues p (p.compileScript o given script).2 := by
  unfold compileScript
  split
  · exact ⟨.unplaced _ hload (.refl _), rfl, rfl, rfl⟩
  · rename_i settings hsettings
    dsimp only
    split
    · rename_i hcompile
      exact ⟨.failed hload (.refl _) fun l hl => compile_places hcompile hl, rfl, rfl, rfl⟩
    · rename_i program entries hcompile
      have hcompiled : (compile settings script).1 = .ok program := by rw [hcompile]
      split
      · exact ⟨.unplaced _ hload (.refl _), rfl, rfl, rfl⟩
      · rename_i q hdump
        obtain ⟨hdisk, hreports, houtcomes, hsources⟩ := dump_ok hdump
        have hsame : q.disk = p.disk := hdisk
        split
        · rename_i hcommand
          exact ⟨hsame ▸ .checked hload hcommand, hreports, houtcomes, hsources⟩
        · rename_i hcommand
          split
          · rename_i hwrite
            exact ⟨.unplaced _ hload (hsame ▸ Program.write_error hwrite), hreports, houtcomes,
              hsources⟩
          · rename_i output size d hwrite
            obtain ⟨text, htext, hwritten⟩ := Program.write_ok hwrite
            obtain ⟨place, hlocate, hrewrites⟩ := Disk.rewrites_of_write hwritten
            exact ⟨.built hload hcommand hsettings hcompiled htext hlocate (hsame ▸ hrewrites),
              hreports, houtcomes, hsources⟩

/-- What comes of an input. -/
def attempt (o : Options) (given : Option Settings) (p : Progress) (path : String) :
    Except Diagnostic (Option String) :=
  match Script.load p.disk path with
  | .error fault => .error (.ofFault fault)
  | .ok script => (p.compileScript o given script).1

/-- The fault of an input that fails. -/
def fault (o : Options) (given : Option Settings) (p : Progress) (path : String) :
    Option Diagnostic :=
  match p.attempt o given path with
  | .error diagnostic => some diagnostic
  | .ok _ => none

/-- What an input adds to a run. -/
structure Takes (o : Options) (given : Option Settings) (p : Progress) (path : String)
    (q : Progress) : Prop where
  outcomes : ∃ lines, q.outcomes = p.outcomes ++
    [⟨path, (p.attempt o given path).toOption.join, lines, (p.attempt o given path).isOk⟩]
  reports : q.reports = p.reports.extend ((p.fault o given path).toList.map Report.ofDiagnostic)
  sources : q.sources = ((Script.load p.disk path).toOption.toList.map fun script =>
    (script.name, script.content)) ++ p.sources
  ends : Ends o given path p (p.attempt o given path) q.disk

theorem compileInput_takes (o : Options) (given : Option Settings) (p : Progress)
    (path : String) : Takes o given p path (compileInput o given p path) := by
  unfold compileInput
  cases hload : Script.load p.disk path with
  | error fault =>
    have hattempt : p.attempt o given path = .error (.ofFault fault) := by rw [attempt, hload]
    refine ⟨⟨0, ?_⟩, ?_, ?_, ?_⟩
    · rw [hattempt]
      rfl
    · rw [Progress.fault, hattempt]
      rfl
    · rw [hload]
      rfl
    · rw [hattempt]
      exact .unread hload
  | ok script =>
    obtain ⟨hends, hcontinues⟩ := @compileScript_ends o given p path script hload
    have hattempt : p.attempt o given path = (p.compileScript o given script).1 := by
      rw [attempt, hload]
    dsimp only
    generalize p.compileScript o given script = compiled at hends hcontinues hattempt ⊢
    obtain ⟨result, q⟩ := compiled
    rw [← hattempt] at hends
    have hsources : (script.name, script.content) :: q.sources =
        ((Script.load p.disk path).toOption.toList.map fun script =>
          (script.name, script.content)) ++ p.sources := by
      rw [hload, hcontinues.sources]
      rfl
    cases result with
    | ok written =>
      refine ⟨⟨script.lines.length, ?_⟩, ?_, hsources, hends⟩
      · rw [hattempt, ← hcontinues.outcomes]
        rfl
      · rw [fault, hattempt]
        exact hcontinues.reports
    | error diagnostic =>
      refine ⟨⟨script.lines.length, ?_⟩, ?_, hsources, hends⟩
      · rw [hattempt, ← hcontinues.outcomes]
        rfl
      · rw [fault, hattempt, ← hcontinues.reports]
        rfl

theorem Ends.follows {path : String} {result : Except Diagnostic (Option String)} {d : Disk}
    (h : Ends o given path p result d) : p.disk.Follows d := by
  cases h with
  | unread _ => exact .refl _
  | failed _ hdisk _ => exact hdisk.follows
  | checked _ _ => exact .refl _
  | built _ _ _ _ _ _ hdisk => exact hdisk.follows

end Progress

/-- An input at its turn: its path and the run so far. -/
structure Turn where
  path : String
  before : Progress

namespace Turn

variable (o : Options) (given : Option Settings)

def result (turn : Turn) : Except Diagnostic (Option String) :=
  turn.before.attempt o given turn.path

def fault (turn : Turn) : Option Diagnostic :=
  turn.before.fault o given turn.path

/-- The run when the input has been compiled. -/
def after (turn : Turn) : Progress :=
  turn.before.compileInput o given turn.path

theorem takes (turn : Turn) :
    Progress.Takes o given turn.before turn.path (turn.after o given) :=
  Progress.compileInput_takes o given turn.before turn.path

/-- The outcome is that of the input. -/
structure Shows (turn : Turn) (outcome : Outcome) : Prop where
  input : outcome.input = turn.path
  ok : outcome.ok = (turn.result o given).isOk
  output : outcome.output = (turn.result o given).toOption.join

end Turn

/-- The inputs of a run, each as the run comes to it. -/
def turns (o : Options) (given : Option Settings) : Progress → List String → List Turn
  | _, [] => []
  | p, path :: rest => ⟨path, p⟩ :: turns o given (p.compileInput o given path) rest

/-- The run over the inputs. -/
def compileInputs (o : Options) (given : Option Settings) (p : Progress) (paths : List String) :
    Progress :=
  paths.foldl (Progress.compileInput o given) p

theorem exists_last_of_mem {α : Type} {P : α → Prop} {l : List α} (h : ∃ a ∈ l, P a) :
    ∃ front a rest, l = front ++ a :: rest ∧ P a ∧ ∀ b ∈ rest, ¬ P b := by
  induction l with
  | nil =>
    obtain ⟨a, ha, _⟩ := h
    cases ha
  | cons first l ih =>
    by_cases hlater : ∃ a ∈ l, P a
    · obtain ⟨front, a, rest, rfl, ha, hrest⟩ := ih hlater
      exact ⟨first :: front, a, rest, rfl, ha, hrest⟩
    · obtain ⟨a, ha, hP⟩ := h
      rcases List.mem_cons.mp ha with rfl | ha
      · exact ⟨[], a, l, rfl, hP, fun b hb hPb => hlater ⟨b, hb, hPb⟩⟩
      · exact absurd ⟨a, ha, hP⟩ hlater

section Runs

variable (o : Options) (given : Option Settings)

/-- What is left of the run after one of its inputs is a run over the inputs after it. -/
theorem turns_split {o : Options} {given : Option Settings} {p : Progress} {paths : List String}
    {earlier later : List Turn} {turn : Turn}
    (h : turns o given p paths = earlier ++ turn :: later) :
    p.disk.Follows turn.before.disk ∧
      ∃ rest, later = turns o given (turn.after o given) rest ∧
        compileInputs o given p paths = compileInputs o given (turn.after o given) rest := by
  induction paths generalizing p earlier with
  | nil =>
    rw [turns] at h
    simp at h
  | cons path rest ih =>
    rw [turns] at h
    cases earlier with
    | nil =>
      obtain ⟨rfl, rfl⟩ := List.cons.inj h
      exact ⟨.refl _, rest, rfl, rfl⟩
    | cons first earlier =>
      obtain ⟨_, hrest⟩ := List.cons.inj h
      obtain ⟨hfollows, hlater⟩ := ih hrest
      exact ⟨(Progress.compileInput_takes o given p path).ends.follows.trans hfollows, hlater⟩

theorem follows_compileInputs (p : Progress) (paths : List String) :
    p.disk.Follows (compileInputs o given p paths).disk := by
  induction paths generalizing p with
  | nil => exact .refl _
  | cons path rest ih =>
    exact (Progress.compileInput_takes o given p path).ends.follows.trans (ih _)

theorem outcomes_compileInputs (p : Progress) (paths : List String) :
    ∃ outcomes, (compileInputs o given p paths).outcomes = p.outcomes ++ outcomes ∧
      List.Forall₂ (Turn.Shows o given) (turns o given p paths) outcomes := by
  induction paths generalizing p with
  | nil => exact ⟨[], (List.append_nil _).symm, .nil⟩
  | cons path rest ih =>
    obtain ⟨lines, hfirst⟩ := (Progress.compileInput_takes o given p path).outcomes
    obtain ⟨outcomes, hrest, hshows⟩ := ih (p.compileInput o given path)
    rw [hfirst, List.append_assoc, List.singleton_append] at hrest
    exact ⟨_, hrest, .cons ⟨rfl, rfl, rfl⟩ hshows⟩

theorem outcomes_start (d : Disk) (paths : List String) :
    List.Forall₂ (Turn.Shows o given) (turns o given (.start d) paths)
      (compileInputs o given (.start d) paths).outcomes := by
  obtain ⟨outcomes, houtcomes, hshows⟩ := outcomes_compileInputs o given (.start d) paths
  rw [houtcomes]
  exact hshows

end Runs

theorem runOptions_eq {o : Options} {d : Disk} {given : Option Settings} {paths : List String}
    (hgiven : o.settings.mapM (Settings.load d) = .ok given) (hpaths : inputPaths o d = .ok paths) :
    runOptions o d = (compileInputs o given (.start d) paths).finish o := by
  unfold runOptions
  dsimp only
  rw [hgiven]
  dsimp only
  rw [hpaths]
  rfl

theorem Progress.finish_disk (p : Progress) (o : Options) : (p.finish o).disk = p.disk := by
  unfold Progress.finish
  dsimp only
  split_ifs <;> rfl

/-- Two scripts of one name in two folders, and settings that load no modules. -/
def namesakes (first second : String) : Disk :=
  (((Disk.ofWorking []).addFile "s.json" (.text "\x7b\"default_dependencies\":[]\x7d")).addFile
    "a/x.sea" (.text first)).addFile "b/x.sea" (.text second)

end CommandLine

end LineScript
