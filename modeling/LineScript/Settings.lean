import LineScript.Statement

/-!
# Settings

How scripts are compiled and where the results go.
-/
namespace LineScript

structure Settings where
  tabSize : Nat := 2
  extension : String := "pl"
  /-- A module may declare its package and ends with a true value. -/
  isModule : Bool := false
  defaultDependencies : List String :=
    ["strict", "warnings", "stdlib.util", "stdlib.array", "stdlib.hashmap", "stdlib.integer",
      "stdlib.string", "stdlib.boolean"]
  outputDir : Option String := none
deriving DecidableEq, Repr, Inhabited

namespace Settings

/-- Every dependency is a module path and none is listed twice. -/
def checkDependencies : List String → List String → Except Fault Unit
  | _, [] => .ok ()
  | seen, path :: rest =>
    match modulePath path with
    | .error fault => .error (.defaultDependency fault.text)
    | .ok _ =>
      if seen.contains path then .error (.repeatedDependency path)
      else checkDependencies (path :: seen) rest

def isBareExtension (text : String) : Bool :=
  let bare := Text.trimBoth text.toList
  !bare.isEmpty && !bare.contains '.' && !bare.contains '/'

def validate (s : Settings) : Except Fault Unit := do
  if s.tabSize = 0 ∨ 8 < s.tabSize then throw (.tabSize s.tabSize)
  if !isBareExtension s.extension then throw (.extension s.extension)
  checkDependencies [] s.defaultDependencies

end Settings

end LineScript
