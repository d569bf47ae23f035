import LineScript.Block.Text
import LineScript.Chain
import LineScript.Scope

/-!
# Expressions in scope

What an expression of a line means where it stands: as the source of a value, as the text of an
expression, as arguments of a call, as a value to hand back.
-/
namespace LineScript.Scopes

variable (s : Scopes)

def requireRoutine (name : String) : Except Fault BlockId :=
  match s.resolveRoutine name with
  | some routine => .ok routine
  | none => .error (.undefinedRoutine name)

/-- An argument of a method: a name that is bound stands for the variable, all else for
itself. -/
def methodArgument (text : String) : Argument :=
  if Text.isName text.toList then
    match s.requireVariable text with
    | .ok bound => .bound bound
    | .error _ => .ofText text
  else .ofText text

/-- The calls of a chain on a variable, each on the result of the one before. -/
def extendCalls (receiver : Variable) (previous : Option MethodCall) :
    List (Except Fault Invocation) → Except Fault (Option MethodCall)
  | [] => .ok previous
  | result :: rest => do
    let invocation ← result
    let arguments := (← invocation.argumentList).map s.methodArgument
    let call :=
      match previous with
      | none => MethodCall.on receiver invocation.method arguments
      | some call => .after call invocation.method arguments
    extendCalls receiver (some call) rest

def methodCall (receiver chain : String) : Except Fault MethodCall := do
  let receiver ← s.requireVariable receiver
  match ← s.extendCalls receiver none (Chain.ofText chain).results.1 with
  | some call => return call
  | none => throw (.emptyChain receiver.name)

mutual

def inlineText : Expression → Except Fault String
  | .literal content => .ok content.native
  | .arguments => .ok (Literal.newObject .array "@ARGV")
  | .variable name => do return (← s.requireVariable name).accessor
  | .routine name arguments => do
    let routine ← s.requireRoutine name
    let arguments ← callArguments arguments
    (← s.store.routineCall routine arguments).expression s.store.routineText
  | .method receiver chain => do (← s.methodCall receiver chain).expression s.store.routineText

def callArguments : List Expression → Except Fault (List Argument)
  | [] => .ok []
  | argument :: rest => do
    let first ←
      match argument with
      | .variable name => do pure (Argument.bound (← s.requireVariable name))
      | .literal content => pure (Argument.raw content.native)
      | other => do pure (Argument.raw (← inlineText other))
    let others ← callArguments rest
    return first :: others

end

def source : Expression → Except Fault Source
  | .literal content => .ok (.literal content)
  | .arguments => .ok .arguments
  | .variable name => do return .variable (← s.requireVariable name)
  | .routine name arguments => do
    let routine ← s.requireRoutine name
    let arguments ← s.callArguments arguments
    return .routine (← s.store.routineCall routine arguments)
  | .method receiver chain => do return .method (← s.methodCall receiver chain)

def returnedValue : Expression → Except Fault ReturnedValue
  | .variable name => do return .value (← s.require name)
  | other => do return .raw (← s.inlineText other)

def message : Option Expression → Except Fault Message
  | none => .ok .empty
  | some (.variable name) => do return .value (← s.requireVariable name)
  | some (.literal (.text content)) => .ok (.raw (Perl.quote content))
  | some (.literal (.number spelling)) => .ok (.raw (Perl.quote spelling))
  | some other => do return .raw (← s.inlineText other)

def test : Option Expression → Except Fault (Option Test)
  | none => .ok none
  | some (.variable name) => do return some (.value (← s.requireVariable name))
  | some other => do return some (.raw (← s.inlineText other))

/-- The last element of the current block that is not plain text is a branch that another can
follow. -/
def followsBranch : Except Fault Bool := do
  let block ← s.store.block s.current.block
  let isText : Element → Bool
    | .text _ => true
    | _ => false
  match block.elements.reverse.find? fun element => !isText element with
  | some (.block id) =>
    match (← s.store.block id).kind with
    | .condition condition => return condition.branch != .otherwise
    | _ => return false
  | _ => return false

end LineScript.Scopes
