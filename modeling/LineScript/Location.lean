import LineScript.Text.Blank

/-!
# Places in a source

Lines and columns count from one, and columns count bytes of the encoded text.
-/
namespace LineScript

structure Location where
  file : String
  line : Nat
  column : Nat
deriving DecidableEq, Repr, Inhabited

structure Span where
  start : Location
  stop : Location
deriving DecidableEq, Repr, Inhabited

def byteLength (s : List Char) : Nat :=
  s.foldr (fun c length => c.utf8Size + length) 0

namespace Location

def text (l : Location) : String :=
  s!"{l.file}:{l.line}:{l.column}"

/-- The first character of a line that is not blank. -/
def ofLine (file : String) (line : Nat) (text : String) : Location where
  file := file
  line := line
  column := byteLength (text.toList.takeWhile Text.isBlank) + 1

end Location

namespace Span

def text (s : Span) : String :=
  s!"{s.start.text} - {s.stop.text}"

def ofLine (file : String) (line : Nat) (text : String) : Span where
  start := Location.ofLine file line text
  stop := ⟨file, line, byteLength (Text.trimRight text.toList) + 1⟩

/-- The number of columns, as long as the span stays on one line. -/
def width (s : Span) : Nat :=
  if s.start.line = s.stop.line then s.stop.column - s.start.column else 0

end Span

end LineScript
