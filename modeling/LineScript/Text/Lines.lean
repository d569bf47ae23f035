/-!
# Lines of a text

Lines end at a line feed. A line keeps every other character; where a carriage return before the
line feed belongs to the line end, exactly one is dropped.
-/
namespace LineScript.Text

/-- The pieces between the line feeds; a text without one is a single piece. -/
def splitLines (s : String) : List String :=
  (s.toList.splitOn '\n').map String.ofList

def dropReturn (line : List Char) : List Char :=
  match line.reverse with
  | '\r' :: rest => rest.reverse
  | _ => line

/-- The lines of a source text, each without one carriage return at its end. -/
def sourceLines (s : String) : List String :=
  (s.toList.splitOn '\n').map fun line => String.ofList (dropReturn line)

/-- The lines as a reader counts them: a text that ends with a line feed has no further, empty
line, and only a line feed takes a carriage return with it. -/
def shownLines (s : String) : List String :=
  let pieces := s.toList.splitOn '\n'
  let ended := pieces.dropLast.map dropReturn
  match pieces.getLast? with
  | some (c :: rest) => (ended ++ [c :: rest]).map String.ofList
  | _ => ended.map String.ofList

def joinWith (separator : String) (parts : List String) : String :=
  separator.intercalate parts

def repeated (n : Nat) (c : Char) : String :=
  String.ofList (List.replicate n c)

end LineScript.Text
