import LineScript.Text.Blank
import LineScript.Text.Lines
import LineScript.Text.Quoting

/-!
# Layout

Indents a text by the braces that are open. Only the trimmed lines of the text count, so that the
indentation it comes with makes no difference. Quotes end with their line.
-/
namespace LineScript.Layout

structure Braces where
  opens : Nat
  closes : Nat
  /-- Closing braces before the first opening one. -/
  leading : Nat
deriving DecidableEq, Repr

def Braces.count (b : Braces) (c : Char) : Braces :=
  if c = '{' then { b with opens := b.opens + 1 }
  else if c = '}' then
    { b with closes := b.closes + 1, leading := if b.opens = 0 then b.leading + 1 else b.leading }
  else b

def scanFrom : Text.Quoting → Braces → List Char → Braces
  | _, b, [] => b
  | .outside, b, c :: rest => scanFrom (Text.Quoting.outside.next c) (b.count c) rest
  | quoting, b, c :: rest => scanFrom (quoting.next c) b rest

def scan (line : List Char) : Braces :=
  scanFrom .outside ⟨0, 0, 0⟩ line

/-- The lines indented, where `depth` braces are open before the first. A line that starts by
closing braces stands as deep as what it closes. -/
def indentLines (tab : Nat) : Nat → List (List Char) → List (List Char)
  | _, [] => []
  | depth, line :: rest =>
    if line.isEmpty then [] :: indentLines tab depth rest
    else
      let braces := scan line
      let level := depth - braces.leading
      (List.replicate (tab * level) ' ' ++ line) ::
        indentLines tab (depth + braces.opens - braces.closes) rest

def format (text : String) (tab : Nat) : String :=
  let lines := (text.toList.splitOn '\n').map Text.trimBoth
  Text.joinWith "\n" ((indentLines tab 0 lines).map String.ofList)

end LineScript.Layout
