import LineScript.Block.Outline
import LineScript.Block.Text
import LineScript.Layout

/-!
# Generated programs

The text that a file block becomes, indented, and ended by a true value if the file is a module.
-/
namespace LineScript

/-- A module ends with a true value on a line of its own. -/
def withTerminator (text : String) : String :=
  let text := if text = "" ∨ text.toList.getLast? = some '\n' then text else text ++ "\n"
  text ++ "1;\n"

namespace Store

def fileText (s : Store) (id : BlockId) (tab : Nat) : Except Fault String := do
  let block ← s.block id
  match block.kind with
  | .file info =>
    let text ← s.blockText id
    return Layout.format (if info.isModule then withTerminator text else text) tab
  | _ => throw (.notFile id)

def fileName (s : Store) (id : BlockId) : Except Fault String := do
  let block ← s.block id
  match block.kind with
  | .file info => return info.name
  | other => throw (.writtenLabel other.label)

end Store

structure Program where
  name : String
  store : Store
  root : BlockId
  tabSize : Nat

namespace Program

/-- The program without indentation. -/
def render (p : Program) : Except Fault String :=
  p.store.blockText p.root

def text (p : Program) : Except Fault String :=
  p.store.fileText p.root p.tabSize

def outline (p : Program) : String :=
  p.store.outline p.root

end Program

end LineScript
