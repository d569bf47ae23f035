import LineScript.Literal.Initial
import LineScript.Value

/-!
# Typing of values

A value is made from a kind, an element kind and a source only if the source may flow into the
kind. A value that exists is therefore well typed.
-/
namespace LineScript

namespace Kind

def ofText (text : String) : Except Fault Kind :=
  match ofWord? (Text.trim text) with
  | some kind => .ok kind
  | none => .error (.unknownKind (Text.trim text))

def elementOfText (text : String) : Except Fault Kind := do
  let kind ← ofText text
  if kind.isElement then return kind else throw (.elementWord (Text.trim text))

/-- The element kind of a new value: containers default to plain elements, other kinds have
none. -/
def elementFor (kind : Kind) (element : Option Kind) : Except Fault (Option Kind) :=
  match kind.isContainer, element with
  | true, some e => if e.isElement then .ok (some e) else .error (.elementKind e)
  | true, none => .ok (some .scalar)
  | false, some e => .error (.elementOfPlain kind e)
  | false, none => .ok none

end Kind

namespace Value

/-- How a variable flows into a value. A container of wrapped elements needs the same element
kind; a container of plain elements takes any. -/
def acceptsVariable (v : Value) (source : Variable) : Flow :=
  match v.kind.accepts source.kind with
  | .exact =>
    if v.kind.isContainer then
      let target := v.element.getD .scalar
      if target = .scalar ∨ target = source.element.getD .scalar then .exact else .refused
    else .exact
  | flow => flow

/-- Whether the result of the call is unwrapped, if it may flow into the value. -/
def checkRoutine (v : Value) (call : RoutineCall) : Except Fault Bool :=
  match call.returned with
  | none => .error (.nothingReturned call.display v.kind v.display)
  | some (.multiple _) =>
    if v.kind = .array then .ok false else .error (.manyReturned call.display v.kind v.display)
  | some (.single none) => .error (.returnedKind call.display v.kind v.display)
  | some (.single (some kind)) =>
    match v.kind.accepts kind with
    | .exact => .ok false
    | .unwrapped => .ok true
    | .refused => .error (.returnedKind call.display v.kind v.display)

def checkSource (v : Value) : Except Fault Bool :=
  match v.source with
  | .literal content => do
    let _ ← content.initial v.kind v.element
    return false
  | .variable source =>
    match v.acceptsVariable source with
    | .exact => .ok false
    | .unwrapped => .ok true
    | .refused =>
      .error (.referenceFlow source.describe source.name (v.kind.describe v.element) v.display)
  | .routine call => v.checkRoutine call
  | .method _ => .ok false
  | .arguments =>
    match v.kind, v.element with
    | .array, some .scalar | .array, some .string => .ok false
    | _, _ => .error (.argumentsFlow v.kind v.display)

def make (kind : Kind) (name : Option String) (element : Option Kind) (source : Source) :
    Except Fault Value := do
  let element ← kind.elementFor element
  let value : Value := ⟨kind, name, element, source, false⟩
  let unwraps ← value.checkSource
  return ⟨kind, name, element, source, unwraps⟩

def ofWords (kind : String) (name : Option String) (element : Option String) (source : Source) :
    Except Fault Value := do
  let kind ← Kind.ofText kind
  let element ← element.mapM Kind.elementOfText
  make kind name element source

/-- A parameter or an element of a loop: bound by name and never declared by itself. -/
def placeholder (name : String) (kind : Kind) : Value where
  kind := kind
  name := some name
  element := if kind.isContainer then some .scalar else none
  source := .literal .undefined
  unwraps := false

end Value

end LineScript
