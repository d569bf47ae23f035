import LineScript.Path
import LineScript.Text.Blank
import LineScript.Text.Shown

/-!
# Scripts

A source with its name and the path it was found at.
-/
namespace LineScript

structure Script where
  name : String
  path : String
  content : String
deriving DecidableEq, Repr, Inhabited

namespace Script

def ofSource (name content : String) : Script :=
  ⟨name, name, content⟩

/-- The name of what is made from the script: its file name without the extension. -/
def stem (s : Script) : String :=
  match Path.stem s.path with
  | some stem => if stem = "" then s.name else stem
  | none => s.name

def isEmpty (s : Script) : Bool :=
  Text.allBlank s.content

/-- The lines with their numbers, from one. -/
def lines (s : Script) : List (Nat × String) :=
  (Text.sourceLines s.content).zipIdx 1 |>.map fun (line, number) => (number, line)

def text (s : Script) : String :=
  s!"Script: {s.name} at {Text.shown s.path}"

end Script

end LineScript
