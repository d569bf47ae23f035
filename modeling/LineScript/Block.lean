import LineScript.Line.Construct
import LineScript.Statement

/-!
# Blocks

A block is a list of elements with what its kind needs. Blocks refer to each other by number.
-/
namespace LineScript

structure FileInfo where
  name : String
  isModule : Bool
  /-- The default dependencies are in place; later ones go in front of them. -/
  headerDone : Bool
  package : Option String
deriving DecidableEq, Repr, Inhabited

structure Routine where
  name : Option String
  parameters : List String
  mode : BindingMode
  declared : Option Kind
  returned : Option Returned
deriving DecidableEq, Repr

namespace Routine

def display (r : Routine) : String :=
  r.name.getD "anonymous routine"

/-- A routine that is declared to return a kind may hand this back. -/
def conforms (declared : Kind) : Returned → Bool
  | .multiple _ => declared == .array
  | .single (some kind) => declared.accepts kind != .refused
  | .single none => false

def close (r : Routine) (given : Return) : Except Fault Routine :=
  match r.declared with
  | some declared =>
    if conforms declared given.returned then .ok { r with returned := some given.returned }
    else .error (.declaredReturn r.display declared)
  | none => .ok { r with returned := some given.returned }

end Routine

inductive Test where
  | value (content : Variable)
  | raw (text : String)
deriving DecidableEq, Repr, Inhabited

/-- A written-out test without its first semicolon, its first line feed and its outer blanks. -/
def Test.text : Test → String
  | value content => content.condition
  | raw text => String.ofList (Text.trimBoth ((text.toList.erase ';').erase '\n'))

structure Condition where
  branch : Branch
  test : Option String
deriving DecidableEq, Repr, Inhabited

def Condition.make (branch : Branch) (test : Option Test) : Except Fault Condition :=
  match branch, test with
  | .otherwise, none => .ok ⟨branch, none⟩
  | .otherwise, some _ => .error .elseWithCondition
  | _, none => .error (.branchWithoutCondition branch.keyword)
  | _, some test => .ok ⟨branch, some test.text⟩

structure ArrayLoop where
  array : Variable
  counter : Value
  length : Value
  element : Value

structure MapLoop where
  map : Variable
  element : String
deriving DecidableEq, Repr, Inhabited

inductive BlockKind where
  | plain
  | file (info : FileInfo)
  | routine (info : Routine)
  | condition (info : Condition)
  | arrayLoop (info : ArrayLoop)
  | mapLoop (info : MapLoop)
  /-- The handler is a block of its own and comes right after. -/
  | evaluation (handler : BlockId)

namespace BlockKind

def label : BlockKind → String
  | plain => "block"
  | file _ => "file"
  | routine _ => "routine"
  | condition _ => "condition"
  | arrayLoop _ => "array-loop"
  | mapLoop _ => "map-loop"
  | evaluation _ => "evaluation"

def isFile : BlockKind → Bool
  | file _ => true
  | _ => false

def isRoutine : BlockKind → Bool
  | routine _ => true
  | _ => false

end BlockKind

inductive Element where
  | text (content : String)
  | block (child : BlockId)
  | value (content : Value)
  | method (call : MethodCall)
  | statement (content : Statement)

structure Block where
  kind : BlockKind
  elements : List Element
  /-- A closing return is in place; nothing can be added. -/
  closed : Bool
  root : Option BlockId

def Block.ofKind (kind : BlockKind) : Block :=
  ⟨kind, [], false, none⟩

end LineScript
