import LineScript.Fault
import LineScript.Text.Blank
import LineScript.Text.Name
import LineScript.Text.Quoting

/-!
# Chains of method calls

A chain such as `.add(1).push("a, b").size()` is read call by call. A reader keeps its source and
can start again; after a fault it gives nothing more until it does.
-/
namespace LineScript

/-- The arguments of a call between commas outside quotes and brackets. -/
def splitArguments (text : String) : Except Fault (List String) :=
  if Text.allBlank text then .ok []
  else
    let arguments := (Text.splitCommas .outside 0 text.toList).map Text.trimBoth
    if arguments.any List.isEmpty then .error (.emptyArgument (Text.trim text))
    else .ok (arguments.map String.ofList)

/-- One call of a chain. The text of the arguments is absent where the parentheses are. -/
structure Invocation where
  method : String
  arguments : Option String
deriving DecidableEq, Repr

def Invocation.argumentList (i : Invocation) : Except Fault (List String) :=
  match i.arguments with
  | some text => splitArguments text
  | none => .ok []

structure Chain where
  source : List Char
  rest : List Char
  failed : Bool
deriving DecidableEq, Repr

namespace Chain

def ofText (text : String) : Chain :=
  ⟨text.toList, text.toList, false⟩

def restart (c : Chain) : Chain :=
  ⟨c.source, c.source, false⟩

def fail (c : Chain) (rest : List Char) (fault : Fault) :
    Option (Except Fault Invocation) × Chain :=
  (some (.error fault), ⟨c.source, rest, true⟩)

def next (c : Chain) : Option (Except Fault Invocation) × Chain :=
  if c.failed then (none, c)
  else
    match Text.trimLeft c.rest with
    | [] => (none, ⟨c.source, [], false⟩)
    | '.' :: rest =>
      match Text.splitName rest with
      | none => c.fail ('.' :: rest) (.callName (String.ofList ('.' :: rest)))
      | some (method, '(' :: after) =>
        match Text.splitClosing .outside 0 after with
        | some (arguments, left) =>
          (some (.ok ⟨String.ofList method, some (String.ofList arguments)⟩),
            ⟨c.source, left, false⟩)
        | none => c.fail ('(' :: after) (.callBrackets (String.ofList method))
      | some (method, after) =>
        (some (.ok ⟨String.ofList method, none⟩), ⟨c.source, after, false⟩)
    | rest => c.fail rest (.callDot (String.ofList rest))

def resultsWithin : Nat → Chain → List (Except Fault Invocation) × Chain
  | 0, c => ([], c)
  | bound + 1, c =>
    match c.next with
    | (none, c) => ([], c)
    | (some result, c) =>
      let (results, c) := resultsWithin bound c
      (result :: results, c)

/-- All results up to the end of the chain. A call takes at least one character, and a fault is
the last result. -/
def results (c : Chain) : List (Except Fault Invocation) × Chain :=
  resultsWithin (c.rest.length + 1) c

def invocations (c : Chain) : Except Fault (List Invocation) :=
  c.results.1.mapM id

end Chain

end LineScript
