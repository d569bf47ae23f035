/-!
# Reading past quotes

Brackets, braces and commas count only outside quoted text. Inside a pair of `"` or `'` marks a
backslash takes the next character with it. Every scan of this library reads quotes by the one
automaton below.
-/
namespace LineScript.Text

inductive Quoting where
  | outside
  | inside (mark : Char)
  | escaped (mark : Char)
deriving DecidableEq, Repr

def isQuoteMark (c : Char) : Bool :=
  c == '"' || c == '\''

def Quoting.next : Quoting → Char → Quoting
  | .outside, c => if isQuoteMark c then .inside c else .outside
  | .inside mark, c =>
    if c = '\\' then .escaped mark else if c = mark then .outside else .inside mark
  | .escaped mark, _ => .inside mark

def opensBracket (c : Char) : Bool :=
  c == '(' || c == '[' || c == '{'

def closesBracket (c : Char) : Bool :=
  c == ')' || c == ']' || c == '}'

/-- The text up to the parenthesis that closes an already opened one, and the text after it.
`depth` brackets have been opened since. The bracket that closes the last level has to be a
parenthesis; before that any closing bracket ends any opening one. -/
def splitClosing : Quoting → Nat → List Char → Option (List Char × List Char)
  | _, _, [] => none
  | .outside, depth, c :: rest =>
    if opensBracket c then
      (splitClosing .outside (depth + 1) rest).map fun (inner, after) => (c :: inner, after)
    else if closesBracket c then
      match depth with
      | 0 => if c = ')' then some ([], rest) else none
      | depth + 1 =>
        (splitClosing .outside depth rest).map fun (inner, after) => (c :: inner, after)
    else
      (splitClosing (Quoting.outside.next c) depth rest).map fun (inner, after) =>
        (c :: inner, after)
  | quoting, depth, c :: rest =>
    (splitClosing (quoting.next c) depth rest).map fun (inner, after) => (c :: inner, after)

/-- The pieces between the commas that stand outside quotes and brackets. A closing bracket
without an opening one leaves the depth at zero. -/
def splitCommas : Quoting → Nat → List Char → List (List Char)
  | _, _, [] => [[]]
  | .outside, depth, c :: rest =>
    if c = ',' ∧ depth = 0 then [] :: splitCommas .outside 0 rest
    else
      let depth :=
        if opensBracket c then depth + 1 else if closesBracket c then depth - 1 else depth
      (splitCommas (Quoting.outside.next c) depth rest).modifyHead (c :: ·)
  | quoting, depth, c :: rest =>
    (splitCommas (quoting.next c) depth rest).modifyHead (c :: ·)

end LineScript.Text
