import LineScript.Block
import LineScript.Value.Typing

/-!
# The store of blocks

All blocks of a compilation, numbered from zero. An edit gives a result or a fault, and the store
as it is afterwards. `append` is the only edit that changes the elements of a block; it sees to it
that a block belongs to one block at most, that no block contains itself and that nothing follows
a closing return.
-/
namespace LineScript

structure Store where
  blocks : Array Block
  /-- The number of names that have been made up. -/
  fresh : Nat

/-- An operation on a store: what it gives, and the store after it. -/
abbrev Edit (α : Type) : Type :=
  ExceptT Fault (StateM Store) α

namespace Store

def empty : Store :=
  ⟨#[], 0⟩

def size (s : Store) : Nat :=
  s.blocks.size

def get? (s : Store) (id : BlockId) : Option Block :=
  s.blocks[id]?

def block (s : Store) (id : BlockId) : Except Fault Block :=
  match s.get? id with
  | some block => .ok block
  | none => .error (.unknownBlock id)

def update (s : Store) (id : BlockId) (change : Block → Block) : Store :=
  { s with blocks := s.blocks.modify id change }

def setRoot (s : Store) (id root : BlockId) : Store :=
  s.update id fun block => { block with root := some root }

def push (s : Store) (id : BlockId) (element : Element) : Store :=
  s.update id fun block => { block with elements := block.elements ++ [element] }

def isAncestorWithin (s : Store) (ancestor : BlockId) : Nat → BlockId → Bool
  | 0, _ => false
  | bound + 1, id =>
    id == ancestor ||
      match (s.get? id).bind Block.root with
      | some root => s.isAncestorWithin ancestor bound root
      | none => false

/-- A block is an ancestor of itself and of what belongs to it at any distance. The way through
the roots passes no block twice. -/
def isAncestor (s : Store) (ancestor id : BlockId) : Bool :=
  s.isAncestorWithin ancestor (s.size + 1) id

def routineCall (s : Store) (id : BlockId) (arguments : List Argument) :
    Except Fault RoutineCall := do
  let block ← s.block id
  match block.kind with
  | .routine routine => return ⟨id, routine.name, routine.returned, arguments⟩
  | other => throw (.callOfBlock id other.label)

end Store

namespace Edit

def requireBlock (id : BlockId) : Edit Block := do
  match (← get).block id with
  | .ok block => return block
  | .error fault => throw fault

def ofExcept {α : Type} (result : Except Fault α) : Edit α :=
  match result with
  | .ok a => return a
  | .error fault => throw fault

def alloc (kind : BlockKind) : Edit BlockId := do
  let store ← get
  set { store with blocks := store.blocks.push (Block.ofKind kind) }
  return store.size

def freshName (stem : String) : Edit String := do
  let store ← get
  set { store with fresh := store.fresh + 1 }
  return s!"__{stem}{store.fresh}"

def appendBlock (parent child : BlockId) : Edit Unit := do
  if child = parent then return
  let block ← requireBlock child
  if block.kind.isFile then throw .nestedFile
  match block.root with
  | some root => if root = parent then return else throw (.ownedBlock child root)
  | none =>
    if (← get).isAncestor child parent then throw (.enclosingBlock child parent)
    modify fun store => (store.setRoot child parent).push parent (.block child)

def appendDependency (parent : BlockId) (block : Block) (d : Dependency) : Edit Unit :=
  match block.kind with
  | .file info =>
    let element := Element.statement (.dependency d)
    if info.headerDone then
      modify fun store => store.update parent fun block =>
        { block with elements := element :: block.elements }
    else modify fun store => store.push parent element
  | other => throw (.dependencyPlace other.label)

def appendReturn (parent : BlockId) (block : Block) (given : Return) : Edit Unit := do
  let kind ←
    match block.kind with
    | .routine routine => do pure (BlockKind.routine (← ofExcept (routine.close given)))
    | other => pure other
  modify fun store => store.update parent fun block =>
    { block with
      kind := kind
      elements := block.elements ++ [.statement (.giveBack given)]
      closed := true }

def appendPackage (parent : BlockId) (block : Block) (path : String) : Edit Unit :=
  match block.kind with
  | .file info =>
    if info.isModule then
      modify fun store => store.update parent fun block =>
        { block with
          kind := .file { info with package := some path }
          elements := block.elements ++ [.statement (.package path)] }
    else throw .packagePlace
  | _ => throw .packagePlace

/-- A handler that belongs to no block yet belongs to the block that installs it. -/
def appendSignal (parent : BlockId) (signal : Signal) (routine : BlockId) : Edit Unit := do
  let handler ← requireBlock routine
  if !handler.kind.isRoutine then throw (.handlerLabel handler.kind.label)
  if (← get).isAncestor routine parent then throw .handlerInsideItself
  modify fun store =>
    let store := if handler.root.isNone then store.setRoot routine parent else store
    store.push parent (.statement (.signal signal routine))

/-- Adds an element to a block that nothing has closed. -/
def place (parent : BlockId) (block : Block) : Element → Edit Unit
  | .block child => appendBlock parent child
  | .statement (.dependency d) => appendDependency parent block d
  | .statement (.giveBack given) => appendReturn parent block given
  | .statement (.package path) => appendPackage parent block path
  | .statement (.signal signal routine) => appendSignal parent signal routine
  | other => modify fun store => store.push parent other

def append (parent : BlockId) (element : Element) : Edit Unit := do
  let block ← requireBlock parent
  if block.closed then throw (.closedBlock parent)
  place parent block element

def appendPreamble (file : BlockId) : List String → Edit Unit
  | [] => return
  | path :: rest => do
    let dependency ← ofExcept (Dependency.make path none)
    append file (.statement (.dependency dependency))
    appendPreamble file rest

def newFile (name : String) (isModule : Bool) (preamble : List String) : Edit BlockId := do
  let id ← alloc (.file ⟨name, isModule, false, none⟩)
  appendPreamble id preamble
  modify fun store => store.update id fun block =>
    match block.kind with
    | .file info => { block with kind := .file { info with headerDone := true } }
    | _ => block
  return id

def newPlain : Edit BlockId :=
  alloc .plain

def newRoutine (name : Option String) (parameters : List BoundParameter) (mode : BindingMode)
    (declared : Option Kind) : Edit BlockId := do
  let binding : Binding := ⟨parameters, mode⟩
  let id ← alloc (.routine ⟨name, binding.names, mode, declared, none⟩)
  if !parameters.isEmpty then append id (.statement (.binding binding))
  return id

def newCondition (branch : Branch) (test : Option Test) : Edit BlockId := do
  let condition ← ofExcept (Condition.make branch test)
  alloc (.condition condition)

def newArrayLoop (array : Value) (element : String) : Edit (BlockId × Value) := do
  if array.kind ≠ .array then throw (.arrayLoopOver array.kind array.display)
  let looped ← ofExcept array.toVariable
  let counterName ← freshName "i"
  let lengthName ← freshName "len"
  let counter ← ofExcept (Value.make .integer (some counterName) none (.literal (.ofInt 0)))
  let length ← ofExcept
    (Value.make .scalar (some lengthName) none (.method (.on looped "size" [])))
  let counterVariable ← ofExcept counter.toVariable
  let item ← ofExcept
    (Value.make (array.element.getD .scalar) (some element) none
      (.method (.on looped "get" [.bound counterVariable])))
  let id ← alloc (.arrayLoop ⟨looped, counter, length, item⟩)
  return (id, item)

def newMapLoop (map : Value) (element : String) : Edit BlockId := do
  if map.kind ≠ .map then throw (.mapLoopOver map.kind map.display)
  let looped ← ofExcept map.toVariable
  alloc (.mapLoop ⟨looped, element⟩)

/-- A block whose faults are caught, and the handler that prints them. -/
def newEvaluation : Edit BlockId := do
  let handler ← newCondition .ifTrue (some (.raw "$@"))
  append handler (.statement (.print ⟨.raw "$@", true⟩))
  let id ← alloc (.evaluation handler)
  modify fun store => store.setRoot handler id
  return id

end Edit

end LineScript
