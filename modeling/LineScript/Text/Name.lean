/-!
# Names

A name is an ASCII letter or underscore followed by ASCII letters, digits and underscores.
-/
namespace LineScript.Text

def startsName (c : Char) : Bool :=
  c.isAlpha || c == '_'

def continuesName (c : Char) : Bool :=
  c.isAlphanum || c == '_'

def isName : List Char → Bool
  | [] => false
  | c :: rest => startsName c && rest.all continuesName

/-- The longest name at the head of a text, and what follows it. -/
def splitName : List Char → Option (List Char × List Char)
  | [] => none
  | c :: rest =>
    if startsName c then some (c :: rest.takeWhile continuesName, rest.dropWhile continuesName)
    else none

/-- Segments that are names, with `::` or a single dot between them, at the head of a text. The
text ends before a separator that no name follows. The bound counts the segments still allowed,
and a text has fewer segments than characters. -/
def splitPathWithin : Nat → List Char → List Char × List Char
  | 0, s => ([], s)
  | bound + 1, ':' :: ':' :: rest =>
    match splitName rest with
    | some (name, after) =>
      let (path, left) := splitPathWithin bound after
      (':' :: ':' :: name ++ path, left)
    | none => ([], ':' :: ':' :: rest)
  | bound + 1, '.' :: rest =>
    match splitName rest with
    | some (name, after) =>
      let (path, left) := splitPathWithin bound after
      ('.' :: name ++ path, left)
    | none => ([], '.' :: rest)
  | _ + 1, s => ([], s)

def splitModulePath (s : List Char) : Option (List Char × List Char) :=
  match splitName s with
  | some (name, after) =>
    let (path, left) := splitPathWithin after.length after
    some (name ++ path, left)
  | none => none

/-- The pieces between double colons, found from the left. -/
def splitDoubleColons : List Char → List (List Char)
  | [] => [[]]
  | ':' :: ':' :: rest => [] :: splitDoubleColons rest
  | c :: rest => (splitDoubleColons rest).modifyHead (c :: ·)

end LineScript.Text
