import LineScript.Text.Lines
import LineScript.Value.Typing

/-!
# Expressions of values

The text that computes a value in the generated program. A call of a routine without a name
contains the routine itself; the text of routines is a parameter here.
-/
namespace LineScript

namespace Value

def argumentsExpression (v : Value) : Except Fault String :=
  match v.kind, v.element with
  | .array, some .scalar | .array, none => .ok (Literal.newObject v.kind "@ARGV")
  | .array, some .string =>
    .ok (Literal.newObject v.kind "map \x7b stdlib::string->new($_) \x7d @ARGV")
  | _, _ => .error (.argumentsText v.kind v.display)

/-- A value that starts as another variable: wrappers are built anew, containers copied. -/
def variableExpression (v : Value) (source : Variable) : Except Fault String :=
  let refused := Fault.referenceText source.describe source.name v.kind v.display
  match v.acceptsVariable source with
  | .refused => .error refused
  | .exact =>
    match v.kind with
    | .string | .integer | .boolean =>
      .ok (Literal.newObject v.kind (source.reference ++ "->valueOf()"))
    | .scalar => .ok source.reference
    | .array | .map => .ok (source.reference ++ "->clone()")
    | .hash => .ok ("\x7b %\x7b" ++ source.reference ++ "\x7d \x7d")
  | .unwrapped =>
    match v.kind with
    | .scalar => .ok (source.reference ++ "->valueOf()")
    | _ => .error refused

end Value

def applied (callee : String) (arguments : List String) : String :=
  callee ++ "(" ++ Text.joinWith ", " arguments ++ ")"

mutual

def Value.expression (routineText : BlockId → Except Fault String) : Value → Except Fault String
  | ⟨kind, name, element, source, unwraps⟩ =>
    match source with
    | .literal content => content.initial kind element
    | .variable v => Value.variableExpression ⟨kind, name, element, source, unwraps⟩ v
    | .routine call => do
      let invoked ← RoutineCall.expression routineText call
      return if unwraps then invoked ++ "->valueOf()" else invoked
    | .method call => MethodCall.expression routineText call
    | .arguments => Value.argumentsExpression ⟨kind, name, element, source, unwraps⟩

/-- A call by name, or of a routine written out in place. -/
def RoutineCall.expression (routineText : BlockId → Except Fault String) :
    RoutineCall → Except Fault String
  | ⟨routine, name, _, arguments⟩ => do
    let arguments ← argumentExpressions routineText arguments
    match name with
    | some name => return applied name arguments
    | none => return applied ((← routineText routine) ++ "->") arguments

def MethodCall.expression (routineText : BlockId → Except Fault String) :
    MethodCall → Except Fault String
  | .on receiver method arguments => do
    let arguments ← argumentExpressions routineText arguments
    return applied s!"{receiver.reference}->{method}" arguments
  | .after previous method arguments => do
    let receiver ← MethodCall.expression routineText previous
    let arguments ← argumentExpressions routineText arguments
    return applied s!"{receiver}->{method}" arguments

def Argument.expression (routineText : BlockId → Except Fault String) :
    Argument → Except Fault String
  | .bound source => .ok source.accessor
  | .inline value => Value.expression routineText value
  | .raw text => .ok text

def argumentExpressions (routineText : BlockId → Except Fault String) :
    List Argument → Except Fault (List String)
  | [] => .ok []
  | argument :: rest => do
    let first ← Argument.expression routineText argument
    let others ← argumentExpressions routineText rest
    return first :: others

end

/-- The statement that declares a named value, or evaluates one without a name. -/
def Value.declaration (routineText : BlockId → Except Fault String) (v : Value) :
    Except Fault String := do
  let expression ← v.expression routineText
  match v.name with
  | some name => return s!"my ${name} = {expression};\n"
  | none => return expression ++ ";\n"

end LineScript
