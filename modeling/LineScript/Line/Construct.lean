import LineScript.Literal

/-!
# Constructs

What a single line of a script can be, with the data that the line carries.
-/
namespace LineScript

/-- A kind as it is written in a source, with its element kind in angle brackets. -/
structure TypeName where
  name : String
  element : Option String
deriving DecidableEq, Repr, Inhabited

structure Parameter where
  name : String
  type : Option TypeName
deriving DecidableEq, Repr, Inhabited

inductive Branch where
  | ifTrue
  | elseIf
  | otherwise
deriving DecidableEq, Repr, Inhabited

def Branch.keyword : Branch → String
  | ifTrue => "if"
  | elseIf => "elsif"
  | otherwise => "else"

inductive Expression where
  | literal (content : Literal)
  | variable (name : String)
  | routine (name : String) (arguments : List Expression)
  /-- A receiver and the text of the method calls on it. -/
  | method (receiver chain : String)
  | arguments
deriving Repr, Inhabited

inductive Construct where
  | blank
  | comment
  | openScope
  | closeScope
  | importModule (path : String) (symbols : Option (List String))
  | package (path : String)
  | declare (type : TypeName) (name : String) (value : Expression)
  | assign (name : String) (value : Expression)
  | methodChain (receiver chain : String)
  | routine (name : Option String) (parameters : List Parameter) (returns : Option TypeName)
  | giveBack (values : List Expression)
  | condition (branch : Branch) (value : Option Expression)
  | loop (element iterable : String)
  | attempt
  | signal (name : String) (parameter : Option String)
  | print (value : Option Expression)
  | exit (code : Int)
deriving Repr, Inhabited

namespace Construct

def label : Construct → String
  | blank => "blank"
  | comment => "comment"
  | openScope => "open-scope"
  | closeScope => "close-scope"
  | importModule _ _ => "import"
  | package _ => "package"
  | declare _ _ _ => "declare"
  | assign _ _ => "assign"
  | methodChain _ _ => "method-chain"
  | routine _ _ _ => "routine"
  | giveBack _ => "return"
  | condition _ _ => "condition"
  | loop _ _ => "loop"
  | attempt => "try"
  | signal _ _ => "signal"
  | print _ => "print"
  | exit _ => "exit"

end Construct

end LineScript
