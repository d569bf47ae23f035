import LineScript.Build
import LineScript.CommandLine.Options
import LineScript.CommandLine.Table
import LineScript.Disk.Pattern
import LineScript.Report.Collection
import LineScript.Report.Pretty

/-!
# Runs of the command line

Compiles every input by itself. A fault in one input does not keep the others from being
compiled; a fault in the settings or in a pattern ends the run before the first.
-/
namespace LineScript.CommandLine

structure Outcome where
  input : String
  output : Option String
  lines : Nat
  ok : Bool
deriving DecidableEq, Repr, Inhabited

structure Progress where
  disk : Disk
  stdout : String
  stderr : String
  reports : Reports
  outcomes : List Outcome
  /-- The sources that reports show, by the name of the script; the latest comes first. -/
  sources : List (String × String)
deriving Inhabited

structure Result where
  exit : Nat
  stdout : String
  /-- Usage is not part of the result. -/
  stderr : Option String
  disk : Disk
deriving Inhabited

def levelName : LogLevel → String
  | .debug => "DEBUG"
  | .info => " INFO"
  | .warn => " WARN"

/-- How often verbosity has to be asked for to see the level. -/
def neededVerbosity : LogLevel → Nat
  | .warn => 0
  | .info => 1
  | .debug => 2

def logLine (entry : LogEntry) : String :=
  levelName entry.level ++ " " ++ Text.logged entry.message ++ "\n"

def logText (verbosity : Nat) (log : List LogEntry) : String :=
  String.join ((log.filter fun entry => neededVerbosity entry.level ≤ verbosity).map logLine)

def folderOf (path : String) : String :=
  match Path.parent path with
  | some "" | none => "."
  | some folder => folder

namespace Progress

def start (d : Disk) : Progress :=
  ⟨d, "", "", .empty, [], []⟩

def log (p : Progress) (o : Options) (entries : List LogEntry) : Progress :=
  { p with stderr := p.stderr ++ logText o.verbosity entries }

def print (p : Progress) (line : String) : Progress :=
  { p with stdout := p.stdout ++ line ++ "\n" }

def settingsFor (p : Progress) (o : Options) (given : Option Settings) (script : Script) :
    Except Fault Settings := do
  let settings ←
    match given with
    | some settings => pure settings
    | none => do pure ((← Settings.discover p.disk (folderOf script.path)).getD {})
  return if o.isModule then { settings with isModule := true } else settings

def dump (p : Progress) (o : Options) (program : Program) : Except Fault Progress :=
  match o.dump with
  | none => .ok p
  | some .outline => .ok (p.print program.outline)
  | some .text => do return p.print (← program.text)

/-- Compiles a script; gives the path that was written. -/
def compileScript (p : Progress) (o : Options) (given : Option Settings) (script : Script) :
    Except Diagnostic (Option String) × Progress :=
  match p.settingsFor o given script with
  | .error fault => (.error (.ofFault fault), p)
  | .ok settings =>
    let p := p.log o [⟨.debug, s!"config for {script.name}: {settings.record}"⟩]
    match compile settings script with
    | (.error diagnostic, entries) => (.error diagnostic, p.log o entries)
    | (.ok program, entries) =>
      let p := p.log o entries
      match p.dump o program with
      | .error fault => (.error (.ofFault fault), p)
      | .ok p =>
        match o.command with
        | .check => (.ok none, p)
        | .build =>
          let folder := (o.output <|> settings.outputDir).getD (folderOf script.path)
          match program.write folder settings.extension p.disk with
          | (.error fault, d) => (.error (.ofFault fault), { p with disk := d })
          | (.ok (path, size), d) =>
            let p := { p with disk := d }
            (.ok (some path),
              p.log o [⟨.info, s!"wrote {path} ({size} bytes)"⟩,
                ⟨.info, s!"{script.name} -> {path}"⟩])

def compileInput (o : Options) (given : Option Settings) (p : Progress) (path : String) :
    Progress :=
  match Script.load p.disk path with
  | .error fault =>
    { p with
      reports := p.reports.pushDiagnostic (.ofFault fault)
      outcomes := p.outcomes ++ [⟨path, none, 0, false⟩] }
  | .ok script =>
    let (result, p) := p.compileScript o given script
    let lines := script.lines.length
    let p := { p with sources := (script.name, script.content) :: p.sources }
    match result with
    | .ok written => { p with outcomes := p.outcomes ++ [⟨path, written, lines, true⟩] }
    | .error diagnostic =>
      { p with
        reports := p.reports.pushDiagnostic diagnostic
        outcomes := p.outcomes ++ [⟨path, none, lines, false⟩] }

def outcomeJson (outcome : Outcome) : Json :=
  .object [
    ("input", .text outcome.input),
    ("output", .ofOption .text outcome.output),
    ("lines", .ofNat outcome.lines),
    ("ok", .bool outcome.ok)]

def document (p : Progress) : Json :=
  .object [("files", .array (p.outcomes.map outcomeJson)), ("reports", p.reports.toJson)]

def table (p : Progress) : Table where
  header := ["File", "Output", "Lines", "Status"]
  rows := p.outcomes.map fun outcome =>
    [outcome.input, outcome.output.getD "-", toString outcome.lines,
      if outcome.ok then "ok" else "failed"]

/-- The source of the script that a report is about, as far as its name tells. -/
def sourceOf (p : Progress) (r : Report) : String :=
  ((r.location.bind fun l => p.sources.lookup l.file)).getD ""

def result (p : Progress) : Result :=
  ⟨p.reports.exitCode, p.stdout, some p.stderr, p.disk⟩

def finish (p : Progress) (o : Options) : Result :=
  if o.json.getD false then (p.print p.document.sorted.pretty).result
  else
    let shown := String.join (p.reports.reports.map fun r => r.pretty false (p.sourceOf r))
    let p := { p with stderr := p.stderr ++ shown }
    let p := if p.outcomes.isEmpty then p else (p.print "Summary").print p.table.text
    let all := p.outcomes.length
    if p.reports.hasErrors then
      let failed := max (p.outcomes.countP fun outcome => !outcome.ok) 1
      let line := s!"{failed} of {all} file(s) failed\n"
      { p with stderr := p.stderr ++ line }.result
    else (p.print s!"{all} file(s) compiled").result

/-- Ends a run before the first input. -/
def stop (p : Progress) (o : Options) (fault : Fault) : Result :=
  { p with reports := p.reports.pushDiagnostic (.ofFault fault) }.finish o

end Progress

def isPattern (input : String) : Bool :=
  input.toList.any fun c => c == '*' || c == '?' || c == '['

def expand (d : Disk) (input : String) : Except Fault (List String) :=
  if isPattern input then
    match Pattern.files d input with
    | .error refusal => .error (.inputPattern input refusal.text)
    | .ok [] => .error (.unmatchedPattern input)
    | .ok paths => .ok paths
  else .ok [input]

def inputPaths (o : Options) (d : Disk) : Except Fault (List String) :=
  List.flatten <$> o.inputs.mapM (expand d)

def runOptions (o : Options) (d : Disk) : Result :=
  let p := Progress.start d
  match o.settings.mapM (Settings.load d) with
  | .error fault => p.stop o fault
  | .ok given =>
    match inputPaths o d with
    | .error fault => p.stop o fault
    | .ok paths => (paths.foldl (Progress.compileInput o given) p).finish o

def run (arguments : List String) (d : Disk) : Result :=
  match read arguments with
  | .run o => runOptions o d
  | .help => ⟨0, "", none, d⟩
  | .refused => ⟨2, "", none, d⟩

end LineScript.CommandLine
