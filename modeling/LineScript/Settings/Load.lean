import LineScript.Disk
import LineScript.Json.Read
import LineScript.Script
import LineScript.Settings

/-!
# Scripts and settings on a disk

Settings are a JSON object; every field has a default, and members that are no field are passed
over. The fields may also stand in an array, in their order.
-/
namespace LineScript

def Script.load (d : Disk) (path : String) : Except Fault Script :=
  match d.read path with
  | .ok content => .ok ⟨(Path.fileName path).getD "", path, content⟩
  | .error refusal => .error (.missingScript path refusal.text)

namespace Settings

inductive Field where
  | tabSize
  | extension
  | isModule
  | defaultDependencies
  | outputDir
deriving DecidableEq, Repr

def Field.all : List Field :=
  [tabSize, extension, isModule, defaultDependencies, outputDir]

def Field.name : Field → String
  | tabSize => "tab_size"
  | extension => "extension"
  | isModule => "module"
  | defaultDependencies => "default_dependencies"
  | outputDir => "output_dir"

/-- A number without sign, fraction and exponent that fits into 64 bits. -/
def count? (spelling : String) : Option Nat :=
  if spelling.toList.all Char.isDigit then
    let n := Nat.ofDigitChars 10 spelling.toList 0
    if n < UInt64.size then some n else none
  else none

def text? : Json → Option String
  | .text content => some content
  | _ => none

def set? (s : Settings) : Field → Json → Option Settings
  | .tabSize, .number spelling => (count? spelling).map fun n => { s with tabSize := n }
  | .extension, .text content => some { s with extension := content }
  | .isModule, .bool value => some { s with isModule := value }
  | .defaultDependencies, .array items =>
    (items.mapM text?).map fun paths => { s with defaultDependencies := paths }
  | .outputDir, .null => some { s with outputDir := none }
  | .outputDir, .text content => some { s with outputDir := some content }
  | _, _ => none

/-- Sets the fields among the members; no field may come twice. -/
def ofMembers? (s : Settings) (seen : List Field) : List (String × Json) → Option Settings
  | [] => some s
  | (key, value) :: rest =>
    match Field.all.find? fun field => field.name == key with
    | none => ofMembers? s seen rest
    | some field =>
      if seen.contains field then none
      else
        match s.set? field value with
        | some s => ofMembers? s (field :: seen) rest
        | none => none

/-- Sets the fields in order; there may be fewer items than fields. -/
def ofItems? (s : Settings) : List Field → List Json → Option Settings
  | _, [] => some s
  | [], _ :: _ => none
  | field :: fields, item :: items =>
    match s.set? field item with
    | some s => ofItems? s fields items
    | none => none

def ofJson? : Json → Option Settings
  | .object members => ofMembers? {} [] members
  | .array items => ofItems? {} Field.all items
  | _ => none

def load (d : Disk) (path : String) : Except Fault Settings := do
  match d.read path with
  | .error refusal => throw (.settingsUnread path refusal.text)
  | .ok raw =>
    match (Json.ofText? raw).bind ofJson? with
    | none => throw (.settingsForm path)
    | some settings =>
      settings.validate
      return settings

def fileName : String :=
  "sealang.json"

def discover (d : Disk) (folder : String) : Except Fault (Option Settings) :=
  let path := Path.join folder fileName
  if d.isFile path then some <$> load d path else .ok none

def record (s : Settings) : String :=
  let dependencies := Text.joinWith ", " (s.defaultDependencies.map Text.shown)
  let folder := (s.outputDir.map fun dir => "Some(" ++ Text.shown dir ++ ")").getD "None"
  "CompilerConfig \x7b tab_size: " ++ toString s.tabSize ++
    ", extension: " ++ Text.shown s.extension ++
    ", module: " ++ (if s.isModule then "true" else "false") ++
    ", default_dependencies: [" ++ dependencies ++ "], output_dir: " ++ folder ++ " \x7d"

end Settings

end LineScript
