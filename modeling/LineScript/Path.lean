import LineScript.Text.Lines

/-!
# Paths

Paths are texts with slashes between their parts. Empty parts, and dots after the first part,
name nothing; what a path names last is its file name.
-/
namespace LineScript.Path

def parts (path : String) : List String :=
  (path.toList.splitOn '/').map String.ofList

def isAbsolute (path : String) : Bool :=
  path.toList.head? == some '/'

/-- The names that a path leads through. A dot stays where it is, two dots go one back. -/
def names (path : String) : List String :=
  (parts path).foldl (fun names part =>
    if part = "" ∨ part = "." then names
    else if part = ".." then names.dropLast
    else names ++ [part]) []

/-- The parts up to the last one that names something. A dot does so at the very start only. -/
def namingParts (parts : List String) : List String :=
  (parts.reverse.dropWhile fun part => part == "" || part == ".").reverse

def trimmedParts (parts : List String) : List String :=
  match namingParts parts, parts with
  | [], "." :: _ => ["."]
  | named, _ => named

def fileName (path : String) : Option String :=
  match (trimmedParts (parts path)).getLast? with
  | some name => if name = "" ∨ name = "." ∨ name = ".." then none else some name
  | none => none

/-- A file name up to its last dot; a dot at the start counts for nothing. -/
def stemOfName (name : String) : String :=
  match name.toList.reverse.dropWhile (· != '.') with
  | [] => name
  | ['.'] => name
  | _ :: before => String.ofList before.reverse

def stem (path : String) : Option String :=
  (fileName path).map stemOfName

/-- The path without its last part; the empty path and the root have none. -/
def parent (path : String) : Option String :=
  match (trimmedParts (parts path)).reverse with
  | [] => none
  | _ :: before =>
    match trimmedParts before.reverse with
    | [] => some (if isAbsolute path then "/" else "")
    | kept => some (Text.joinWith "/" kept)

/-- A path and the paths around it, within a bound. The empty path and the root are left out. -/
def ancestorsWithin : Nat → String → List String
  | 0, _ => []
  | bound + 1, path =>
    match parent path with
    | none => []
    | some around => path :: ancestorsWithin bound around

def ancestors (path : String) : List String :=
  ancestorsWithin (path.length + 1) path

def join (dir path : String) : String :=
  if isAbsolute path ∨ dir = "" then path
  else if dir.toList.getLast? = some '/' then dir ++ path
  else dir ++ "/" ++ path

end LineScript.Path
