import LineScript.Block.Store
import LineScript.Value.Expression

/-!
# Text of blocks

The generated program of a block, without indentation. A block inside another adds one level, and
no block is inside itself, so that the number of blocks bounds the depth.
-/
namespace LineScript

namespace Return

def valueText (routineText : BlockId → Except Fault String) : ReturnedValue → Except Fault String
  | .value content =>
    match content.name with
    | some name => .ok ("$" ++ name)
    | none => content.expression routineText
  | .raw text => .ok text

def text (routineText : BlockId → Except Fault String) (r : Return) : Except Fault String := do
  let values ← r.values.mapM (valueText routineText)
  if r.multiple then return "return (" ++ Text.joinWith "," values ++ ");\n"
  match values with
  | [] => return "return;\n"
  | value :: _ => return "return " ++ value ++ ";\n"

end Return

def inBraces (body : String) : String :=
  "\x7b\n" ++ body ++ "\x7d"

def Routine.definition (routine : Routine) (body : String) : String :=
  match routine.name with
  | some name => "sub " ++ name ++ " " ++ inBraces body
  | none => "sub " ++ inBraces body

namespace Store

variable (s : Store)

/-- The text of a routine written out in place. -/
def routineTextBy (bodyText : BlockId → Except Fault String) (id : BlockId) :
    Except Fault String := do
  let block ← s.block id
  match block.kind with
  | .routine routine => return routine.definition (← bodyText id)
  | _ => throw (.notRoutineText id)

def handlerText (routineText : BlockId → Except Fault String) (signal : Signal)
    (routine : BlockId) : Except Fault String := do
  let block ← s.block routine
  let slot := "$SIG\x7b" ++ signal.key ++ "\x7d = "
  let named :=
    match block.kind with
    | .routine info => info.name
    | _ => none
  match named with
  | some name => return slot ++ "\\&" ++ name ++ ";\n"
  | none => return slot ++ (← routineText routine) ++ ";\n"

def statementTextBy (routineText : BlockId → Except Fault String) :
    Statement → Except Fault String
  | .dependency d => .ok d.text
  | .binding b => .ok b.text
  | .giveBack r => r.text routineText
  | .print p => .ok p.text
  | .assign a => do
    return a.target.reference ++ " = " ++ (← a.value.expression routineText) ++ ";\n"
  | .signal signal routine => s.handlerText routineText signal routine
  | .exit code => .ok s!"exit({code});\n"
  | .package path => .ok ("package " ++ path ++ ";\n")

def elementTextBy (blockText routineText : BlockId → Except Fault String) :
    Element → Except Fault String
  | .text content => .ok content
  | .block child => blockText child
  | .value content => content.declaration routineText
  | .method call => do return (← call.expression routineText) ++ ";\n"
  | .statement content => s.statementTextBy routineText content

def kindText (blockText routineText : BlockId → Except Fault String) (block : Block)
    (body : Except Fault String) : Except Fault String :=
  match block.kind with
  | .file _ => body
  | .plain => do
    if block.elements.isEmpty then return "" else return inBraces (← body) ++ ";\n"
  | .routine routine => do return routine.definition (← body) ++ ";\n"
  | .condition condition => do
    let body ← body
    match condition.branch, condition.test with
    | .otherwise, _ | _, none => return "else " ++ inBraces body ++ "\n"
    | branch, some test => return branch.keyword ++ " (" ++ test ++ ") " ++ inBraces body ++ "\n"
  | .arrayLoop loop => do
    let counter ← loop.counter.declaration routineText
    let length ← loop.length.declaration routineText
    let element ← loop.element.declaration routineText
    let body ← body
    let index := "$" ++ loop.counter.name.getD ""
    let test := index ++ "->valueOf() < $" ++ loop.length.name.getD ""
    let step := index ++ "->add(1);\n"
    let counted := "while (" ++ test ++ ") " ++ inBraces (element ++ body ++ step) ++ ";\n"
    return inBraces (counter ++ length ++ counted) ++ ";\n"
  | .mapLoop loop => throw (.mapLoopText loop.map.name)
  | .evaluation handler => do
    let body ← body
    return "eval " ++ inBraces body ++ ";\n" ++ (← blockText handler)

def bodyTextBy (blockText routineText : BlockId → Except Fault String) (block : Block) :
    Except Fault String := do
  return String.join (← block.elements.mapM (s.elementTextBy blockText routineText))

mutual

/-- The body of a block, nested at most as deep as the bound. -/
def bodyWithin : Nat → BlockId → Except Fault String
  | 0, id => .error (.endlessNesting id)
  | depth + 1, id => do
    let block ← s.block id
    s.bodyTextBy (blockWithin depth) (s.routineTextBy (bodyWithin depth)) block

def blockWithin : Nat → BlockId → Except Fault String
  | 0, id => .error (.endlessNesting id)
  | depth + 1, id => do
    let block ← s.block id
    let routineText := s.routineTextBy (bodyWithin depth)
    kindText (blockWithin depth) routineText block
      (s.bodyTextBy (blockWithin depth) routineText block)

end

/-- The depth to which blocks of the store can nest. -/
def depthBound : Nat :=
  s.size + 1

def blockText (id : BlockId) : Except Fault String :=
  s.blockWithin s.depthBound id

def routineText (id : BlockId) : Except Fault String :=
  s.routineTextBy (s.bodyWithin s.depthBound) id

def elementText (element : Element) : Except Fault String :=
  s.elementTextBy s.blockText s.routineText element

end Store

end LineScript
