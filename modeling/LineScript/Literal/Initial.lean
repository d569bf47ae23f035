import LineScript.Fault
import LineScript.Literal

/-!
# Literals as initial values

The expression that builds a value of a given kind from a literal, or the fault that the kind
cannot hold it. The items of a container are built one by one: elements of a wrapped kind go
through the class of that kind at every depth, plain elements stay native.
-/
namespace LineScript.Literal

def newObject (kind : Kind) (arguments : String) : String :=
  s!"{kind.className}->new({arguments})"

def leaf (kind : Kind) : Literal → Except Fault String
  | lit@(.text content) =>
    match kind with
    | .string => .ok (newObject kind (Perl.quote content))
    | .scalar => .ok (Perl.quote content)
    | _ => .error (.literalShape lit.shape kind)
  | lit@(.number spelling) =>
    match kind with
    | .string => .ok (newObject kind (Perl.quote spelling))
    | .integer =>
      if lit.isIntegral then .ok (newObject kind spelling) else .error (.notIntegral spelling)
    | .scalar => .ok spelling
    | _ => .error (.literalShape lit.shape kind)
  | lit@(.truth value) =>
    match kind with
    | .boolean => .ok (newObject kind (Perl.truth value))
    | _ => .error (.literalShape lit.shape kind)
  | .undefined =>
    match kind with
    | .scalar => .ok "undef"
    | .hash => .ok "\x7b\x7d"
    | _ => .ok (newObject kind "")
  | lit => .error (.literalShape lit.shape kind)

mutual

def wrappedElement (kind : Kind) : Literal → Except Fault String
  | .list items => (wrappedItems kind items).map bracketed
  | .object fields => (wrappedFields kind fields).map braced
  | lit => leaf kind lit

def wrappedItems (kind : Kind) : List Literal → Except Fault (List String)
  | [] => .ok []
  | item :: rest => do
    let first ← wrappedElement kind item
    let others ← wrappedItems kind rest
    return first :: others

def wrappedFields (kind : Kind) : List (String × Literal) → Except Fault (List String)
  | [] => .ok []
  | (name, value) :: rest => do
    let first ← wrappedElement kind value
    let others ← wrappedFields kind rest
    return fieldText name first :: others

end

/-- The kind that elements are wrapped into, if they are not plain. -/
def wrapping : Option Kind → Option Kind
  | some .scalar => none
  | element => element

def initialItems (element : Option Kind) (items : List Literal) : Except Fault (List String) :=
  match wrapping element with
  | some kind => wrappedItems kind items
  | none => .ok (nativeItems items)

def initialFields (element : Option Kind) (fields : List (String × Literal)) :
    Except Fault (List String) :=
  match wrapping element with
  | some kind => wrappedFields kind fields
  | none => .ok (nativeFields fields)

/-- The expression that gives a value of the kind its first value. -/
def initial (kind : Kind) (element : Option Kind) : Literal → Except Fault String
  | lit@(.list items) =>
    match kind with
    | .array => do return newObject kind (",".intercalate (← initialItems element items))
    | _ => .error (.literalShape lit.shape kind)
  | lit@(.object fields) =>
    match kind with
    | .hash => do return braced (← initialFields none fields)
    | .map => do return newObject kind (braced (← initialFields element fields))
    | _ => .error (.literalShape lit.shape kind)
  | lit => leaf kind lit

end LineScript.Literal
