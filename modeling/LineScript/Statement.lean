import LineScript.Text.Lines
import LineScript.Text.Name
import LineScript.Value

/-!
# Statements

The statements a block can hold besides declarations and method calls.
-/
namespace LineScript

/-- The name of a module, with `::` between its segments, from a path that may use dots. -/
def modulePath (path : String) : Except Fault String :=
  let dotted := (Text.trimBoth path.toList).flatMap fun c => if c = '.' then [':', ':'] else [c]
  if (Text.splitDoubleColons dotted).all Text.isName then .ok (String.ofList dotted)
  else .error (.modulePath (Text.trim path))

structure Dependency where
  module : String
  symbols : Option (List String)
deriving DecidableEq, Repr, Inhabited

namespace Dependency

def make (path : String) (symbols : Option (List String)) : Except Fault Dependency := do
  let module ← modulePath path
  return ⟨module, symbols.filter fun names => !names.isEmpty⟩

def text (d : Dependency) : String :=
  match d.symbols with
  | some symbols => "use " ++ d.module ++ " qw(" ++ Text.joinWith " " symbols ++ ");\n"
  | none => "use " ++ d.module ++ ";\n"

end Dependency

/-- How a routine takes its arguments: all at once, or one after the other. -/
inductive BindingMode where
  | destructure
  | shift
deriving DecidableEq, Repr, Inhabited

/-- A parameter of a routine. Callers hand over plain values, so a parameter of a wrapped kind is
put back into its class. -/
structure BoundParameter where
  name : String
  wrap : Option String
deriving DecidableEq, Repr, Inhabited

structure Binding where
  parameters : List BoundParameter
  mode : BindingMode
deriving DecidableEq, Repr, Inhabited

namespace Binding

def names (b : Binding) : List String :=
  b.parameters.map BoundParameter.name

def wrapText (p : BoundParameter) : String :=
  match p.wrap with
  | some cls => s!"${p.name} = {cls}->new(${p.name});\n"
  | none => ""

def shiftText (p : BoundParameter) : String :=
  match p.wrap with
  | some cls => s!"my ${p.name} = {cls}->new(shift);\n"
  | none => s!"my ${p.name} = shift;\n"

def text (b : Binding) : String :=
  match b.parameters, b.mode with
  | [], _ => ""
  | parameters, .destructure =>
    "my (" ++ Text.joinWith ", " (b.names.map ("$" ++ ·)) ++ ") = @_;\n" ++
      String.join (parameters.map wrapText)
  | parameters, .shift => String.join (parameters.map shiftText)

end Binding

inductive ReturnedValue where
  | value (content : Value)
  /-- A written-out expression; its kind is not known. -/
  | raw (text : String)

def ReturnedValue.kind : ReturnedValue → Option Kind
  | value content => some content.kind
  | raw _ => none

structure Return where
  values : List ReturnedValue
  multiple : Bool

namespace Return

def ofValues (values : List ReturnedValue) : Return :=
  ⟨values, decide (1 < values.length)⟩

def returned (r : Return) : Returned :=
  if r.multiple then .multiple (r.values.map ReturnedValue.kind)
  else .single (r.values.head?.bind ReturnedValue.kind)

end Return

inductive Message where
  | value (content : Variable)
  | raw (text : String)
  | empty
deriving DecidableEq, Repr, Inhabited

structure Print where
  message : Message
  newline : Bool
deriving DecidableEq, Repr, Inhabited

def Print.text (p : Print) : String :=
  let message :=
    match p.message with
    | .value content => content.accessor
    | .raw text => text
    | .empty => ""
  match message.isEmpty, p.newline with
  | true, true => "print(\"\\n\");\n"
  | true, false => "print(\"\");\n"
  | false, true => "print(" ++ message ++ ".\"\\n\");\n"
  | false, false => "print(" ++ message ++ ");\n"

structure Assignment where
  target : Variable
  value : Value

def Assignment.make (target value : Value) : Except Fault Assignment :=
  if value.isAnonymous then do return ⟨← target.toVariable, value⟩
  else .error (.namedAssignment target.display)

inductive Signal where
  | chld
  | die
  | int
  | alrm
  | hup
deriving DecidableEq, Repr, Inhabited

namespace Signal

def key : Signal → String
  | chld => "CHLD"
  | die => "__DIE__"
  | int => "INT"
  | alrm => "ALRM"
  | hup => "HUP"

/-- A signal by its name in any case, with or without `SIG` before it. -/
def ofText (text : String) : Except Fault Signal :=
  let upper := (Text.trimBoth text.toList).map Char.toUpper
  let bare :=
    match upper with
    | 'S' :: 'I' :: 'G' :: rest => rest
    | _ => upper
  match String.ofList bare with
  | "CHLD" => .ok chld
  | "DIE" | "__DIE__" => .ok die
  | "INT" => .ok int
  | "ALRM" => .ok alrm
  | "HUP" => .ok hup
  | _ => .error (.unknownSignal (Text.trim text))

end Signal

inductive Statement where
  | dependency (d : Dependency)
  | binding (b : Binding)
  | giveBack (r : Return)
  | print (p : Print)
  | assign (a : Assignment)
  | signal (s : Signal) (routine : BlockId)
  | exit (code : Int)
  | package (path : String)

def Statement.label : Statement → String
  | dependency d => "use " ++ d.module
  | binding b => "bind (" ++ Text.joinWith ", " b.names ++ ")"
  | giveBack r => s!"return x{r.values.length}"
  | print _ => "print"
  | assign a => "assign " ++ a.target.name
  | signal s routine => s!"signal {s.key} -> #{routine}"
  | exit code => s!"exit {code}"
  | package path => "package " ++ path

end LineScript
