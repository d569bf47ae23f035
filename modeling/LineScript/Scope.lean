import LineScript.Block.Store

/-!
# Scopes

The scopes that are open at a place of a script, the innermost first. Each scope has its names and
the block that its lines go to; closing a scope makes its block part of the block around it. The
outermost scope stands for the file and is never closed.
-/
namespace LineScript

/-- The position of a scope: the ordinals of the scopes around it and its own, from the outside.
The outermost scope is `[0]`. -/
abbrev ScopePath := List Nat

def ScopePath.text (path : ScopePath) : String :=
  Text.joinWith "." (path.map toString)

/-- How a scope becomes part of the block around it. -/
inductive Merge where
  | block
  | handler (signal : Signal)
deriving DecidableEq, Repr

structure Scope where
  path : ScopePath
  block : BlockId
  /-- The latest binding of a name comes first. -/
  values : List (String × Value)
  routines : List (String × BlockId)
  children : Nat
  merge : Merge

inductive LogLevel where
  | debug
  | info
  | warn
deriving DecidableEq, Repr

structure LogEntry where
  level : LogLevel
  message : String
deriving DecidableEq, Repr

structure Scopes where
  store : Store
  file : BlockId
  current : Scope
  /-- The scopes around the current one, from the inside. -/
  outer : List Scope
  log : List LogEntry

/-- An operation on the open scopes: what it gives, and the scopes after it. -/
abbrev Session (α : Type) : Type :=
  ExceptT Fault (StateM Scopes) α

namespace Scopes

def all (s : Scopes) : List Scope :=
  s.current :: s.outer

def depth (s : Scopes) : Nat :=
  s.outer.length

def isRoot (s : Scopes) : Bool :=
  s.outer.isEmpty

def path (s : Scopes) : ScopePath :=
  s.current.path

def resolve (s : Scopes) (name : String) : Option Value :=
  s.all.findSome? fun scope => scope.values.lookup name

def require (s : Scopes) (name : String) : Except Fault Value :=
  match s.resolve name with
  | some value => .ok value
  | none => .error (.undefinedVariable name)

def requireVariable (s : Scopes) (name : String) : Except Fault Variable := do
  (← s.require name).toVariable

def resolveRoutine (s : Scopes) (name : String) : Option BlockId :=
  s.all.findSome? fun scope => scope.routines.lookup name

/-- A scope around the current one binds the variable. -/
def boundOutside (s : Scopes) (name : String) : Bool :=
  s.outer.any fun scope => (scope.values.lookup name).isSome

def openFile (name : String) (isModule : Bool) (preamble : List String) : Except Fault Scopes :=
  match (Edit.newFile name isModule preamble).run Store.empty with
  | (.ok file, store) => .ok ⟨store, file, ⟨[0], file, [], [], 0, .block⟩, [], []⟩
  | (.error fault, _) => .error fault

/-- The file and its store, once no scope but the outermost is open. -/
def finish (s : Scopes) : Except Fault (Store × BlockId) :=
  if s.isRoot then .ok (s.store, s.file) else .error (.openScopes s.depth (ScopePath.text s.path))

end Scopes

namespace Session

def note (level : LogLevel) (message : String) : Session Unit :=
  modify fun s => { s with log := s.log ++ [⟨level, message⟩] }

def debug (message : String) : Session Unit :=
  note .debug message

def ofExcept {α : Type} (result : Except Fault α) : Session α :=
  match result with
  | .ok a => return a
  | .error fault => throw fault

def edit {α : Type} (e : Edit α) : Session α := do
  let s ← get
  let (result, store) := e.run s.store
  set { s with store := store }
  ofExcept result

def openScope (block : BlockId) (merge : Merge) : Session ScopePath := do
  let s ← get
  let path := s.current.path ++ [s.current.children]
  debug s!"open scope {ScopePath.text path} (#{block})"
  modify fun s =>
    { s with
      current := ⟨path, block, [], [], 0, merge⟩
      outer := { s.current with children := s.current.children + 1 } :: s.outer }
  return path

def push : Session ScopePath := do
  let block ← edit Edit.newPlain
  openScope block .block

def pushKind (kind : BlockKind) : Session ScopePath := do
  if kind.isFile then throw .fileScope
  let block ← edit (Edit.alloc kind)
  openScope block .block

/-- Opens a scope over a block that is there and belongs to no block. -/
def enter (block : BlockId) : Session ScopePath := do
  let entered ← ofExcept ((← get).store.block block)
  if entered.root.isSome || entered.kind.isFile then throw (.attachedScope block)
  openScope block .block

def enterHandler (signal : Signal) (routine : BlockId) : Session ScopePath := do
  let entered ← ofExcept ((← get).store.block routine)
  if !entered.kind.isRoutine then throw .handlerScope
  openScope routine (.handler signal)

/-- The element that a closed scope leaves in the block around it. -/
def mergedElement (scope : Scope) : Element :=
  match scope.merge with
  | .block => .block scope.block
  | .handler signal => .statement (.signal signal scope.block)

def pop : Session ScopePath := do
  let s ← get
  match s.outer with
  | [] => throw .rootScope
  | parent :: outer =>
    edit (Edit.append parent.block (mergedElement s.current))
    modify fun s => { s with current := parent, outer := outer }
    debug s!"close scope {ScopePath.text s.current.path} (#{s.current.block})"
    return parent.path

def bind (name : String) (value : Value) : Session Unit := do
  if (← get).boundOutside name then
    note .warn s!"{name} shadows an outer variable of the same name"
  modify fun s =>
    { s with current := { s.current with values := (name, value) :: s.current.values } }

def append (element : Element) : Session Unit := do
  edit (Edit.append (← get).current.block element)

def declare (name : String) (value : Value) : Session ScopePath := do
  append (.value value)
  bind name value
  return (← get).path

def declareRoutine (name : String) (routine : BlockId) : Session Unit :=
  modify fun s =>
    { s with current := { s.current with routines := (name, routine) :: s.current.routines } }

/-- Dependencies belong to the file, whatever scope is open. -/
def importModule (dependency : Dependency) : Session Unit := do
  debug s!"import {dependency.module}"
  edit (Edit.append (← get).file (.statement (.dependency dependency)))

def setPackage (path : String) : Session Unit := do
  edit (Edit.append (← get).file (.statement (.package path)))

end Session

end LineScript
