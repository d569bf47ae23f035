import LineScript.Fault
import LineScript.Literal
import LineScript.Text.Blank

/-!
# Values

A value has a kind, sometimes a name, and a source: a literal, a variable, the result of a
routine or of a chain of method calls, or the arguments of the command line. Values and the calls
inside their sources contain each other to any depth.
-/
namespace LineScript

/-- Blocks are numbered in the order in which they are made. -/
abbrev BlockId := Nat

/-- A named value seen from a place that uses it. -/
structure Variable where
  name : String
  kind : Kind
  element : Option Kind
deriving DecidableEq, Repr, Inhabited

/-- What a routine hands back. The kind of a written-out expression is not known. -/
inductive Returned where
  | single (kind : Option Kind)
  | multiple (kinds : List (Option Kind))
deriving DecidableEq, Repr

mutual

structure Value where
  kind : Kind
  name : Option String
  element : Option Kind
  source : Source
  /-- The result of the source is unwrapped into a scalar. -/
  unwraps : Bool

inductive Source where
  | literal (content : Literal)
  | variable (source : Variable)
  | routine (call : RoutineCall)
  | method (call : MethodCall)
  | arguments

/-- A routine as it stood when its result was used. -/
structure RoutineCall where
  routine : BlockId
  name : Option String
  returned : Option Returned
  arguments : List Argument

inductive MethodCall where
  | on (receiver : Variable) (method : String) (arguments : List Argument)
  | after (previous : MethodCall) (method : String) (arguments : List Argument)

inductive Argument where
  | bound (source : Variable)
  | inline (value : Value)
  | raw (text : String)

end

namespace Variable

def describe (v : Variable) : String :=
  v.kind.describe v.element

def reference (v : Variable) : String :=
  "$" ++ v.name

/-- The expression that hands the value over: what a wrapper holds, a copy of a container. -/
def accessor (v : Variable) : String :=
  if v.kind.isWrapped then v.reference ++ "->valueOf()"
  else if v.kind.isContainer then v.reference ++ "->clone()"
  else v.reference

def condition (v : Variable) : String :=
  if v.kind.isWrapped then v.reference ++ "->valueOf() == 1"
  else if v.kind.isContainer then v.reference ++ "->size() > 0"
  else v.reference

end Variable

namespace RoutineCall

def display (c : RoutineCall) : String :=
  c.name.getD "anonymous routine"

end RoutineCall

namespace MethodCall

def method : MethodCall → String
  | on _ method _ => method
  | after _ method _ => method

def arguments : MethodCall → List Argument
  | on _ _ arguments => arguments
  | after _ _ arguments => arguments

def head : MethodCall → Variable
  | on receiver _ _ => receiver
  | after previous _ _ => previous.head

end MethodCall

def Argument.ofText (text : String) : Argument :=
  .raw (Text.trim text)

namespace Value

def display (v : Value) : String :=
  v.name.getD "<anonymous>"

def isAnonymous (v : Value) : Bool :=
  v.name.isNone

def toVariable (v : Value) : Except Fault Variable :=
  match v.name with
  | some name => .ok ⟨name, v.kind, v.element⟩
  | none => .error .anonymousReference

end Value

end LineScript
