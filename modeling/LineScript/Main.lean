import LineScript.CommandLine.Run

/-!
# The program

Takes a picture of what a command line is about, runs the command line on the picture, and carries
the changes back to the files.
-/
namespace LineScript.CommandLine

def usage : String :=
  "Usage: sealang build|check [OPTIONS] FILES...\n\n" ++
  "  -c, --config FILE          settings to use for every file\n" ++
  "      --module               compile as a module\n" ++
  "      --message-format FORM  human or json\n" ++
  "  -v, --verbose              print what is done; twice for details\n" ++
  "  -o, --output DIR           (build) folder of the results\n" ++
  "  -d, --dump STAGE           (build) print ir or text\n"

def pathOf (place : Place) : String :=
  "/" ++ Text.joinWith "/" place

/-- All entries below a place; files come without their content. -/
partial def entriesBelow (place : Place) : IO (List (Place × DiskEntry)) := do
  let mut entries := []
  for found in ← ((← IO.currentDir) / pathOf place).readDir do
    let inner := place ++ [found.fileName]
    if ← found.path.isDir then
      entries := (← entriesBelow inner) ++ (inner, .folder) :: entries
    else
      entries := (inner, .file (.text "")) :: entries
  return entries

/-- Adds what is found on the way along a path, with the content of a file at its end. -/
def record (d : Disk) (path : String) : IO Disk := do
  let here ← IO.currentDir
  let mut d := d
  let mut place := d.start path
  for part in Path.parts path do
    if part = ".." then place := place.dropLast
    else if part ≠ "" ∧ part ≠ "." then place := place ++ [part]
    let file := here / pathOf place
    if ← file.isDir then
      if (d.get? place).isNone then d := d.put place .folder
    else if ← file.pathExists then
      d := d.put place (.file (.ofBytes (← IO.FS.readBinFile file).toList))
  return d

def picture (o : Options) : IO Disk := do
  let working := ((Path.parts (← IO.currentDir).toString).filter (· != ""))
  let mut d := Disk.ofWorking working
  if o.inputs.any isPattern then
    d := { d with entries := d.entries ++ (← entriesBelow working) }
  let inputs := (inputPaths o d).toOption.getD []
  let settings := inputs.map fun path => Path.join (folderOf path) Settings.fileName
  for path in inputs ++ settings ++ o.settings.toList ++ o.output.toList do
    d ← record d path
  for path in settings ++ o.settings.toList do
    match Settings.load d path with
    | .ok loaded => for folder in loaded.outputDir.toList do d ← record d folder
    | .error _ => pure ()
  return d

def carryBack (before after : Disk) : IO Unit := do
  let here ← IO.currentDir
  for (place, content) in before.changesAt after do
    IO.FS.createDirAll (here / pathOf place.dropLast)
    IO.FS.writeFile (here / pathOf place) content

def perform (o : Options) : IO UInt32 := do
  let before ← picture o
  let result := runOptions o before
  carryBack before result.disk
  (← IO.getStdout).putStr result.stdout
  (← IO.getStderr).putStr (result.stderr.getD "")
  return result.exit.toUInt32

end LineScript.CommandLine

open LineScript.CommandLine in
def main (arguments : List String) : IO UInt32 := do
  match read arguments with
  | .run o => perform o
  | .help =>
    (← IO.getStdout).putStr usage
    return 0
  | .refused =>
    (← IO.getStderr).putStr usage
    return 2
