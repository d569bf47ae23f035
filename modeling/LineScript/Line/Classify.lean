import LineScript.Line.Grammar
import LineScript.Text.Blank

/-!
# Classification of lines

Decides which construct a line is, from the line alone.
-/
namespace LineScript.Line

/-- The column of the character after a text: one more than the characters since the last line
feed. -/
def columnAfter (s : List Char) : Nat :=
  (s.reverse.takeWhile (· != '\n')).length + 1

/-- The column in a line of the furthest place where a named phrase was missed. -/
def missedColumn (line : List Char) (missed : Option Nat) : Nat :=
  match missed with
  | some left => columnAfter (line.take (line.length - left))
  | none => 1

def classify (line : String) : Except Fault Construct :=
  match Text.trimBoth line.toList with
  | [] => .ok .blank
  | '/' :: '/' :: _ => .ok .comment
  | trimmed =>
    match wholeLine (skipFiller line.toList) with
    | ⟨some (some construct, _), _⟩ => construct
    | ⟨some (none, _), _⟩ => .ok .comment
    | ⟨none, missed⟩ =>
      .error (.noConstruct (String.ofList trimmed) (missedColumn line.toList missed))

end LineScript.Line
