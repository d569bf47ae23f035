import LineScript.Text.Name

/-!
# Perl strings

A Perl string stands in double quotes. Its own mark, the backslash, the two interpolation sigils
and the three line characters are escaped, so that the string holds the text and nothing is
interpolated. `unescape` resolves the backslashes of a quoted source string.
-/
namespace LineScript.Perl

def quoteChar (c : Char) : List Char :=
  if c = '\n' then ['\\', 'n']
  else if c = '\t' then ['\\', 't']
  else if c = '\r' then ['\\', 'r']
  else if c = '\\' ∨ c = '"' ∨ c = '$' ∨ c = '@' then ['\\', c]
  else [c]

def quoteBody (s : List Char) : List Char :=
  s.flatMap quoteChar

def quote (s : String) : String :=
  String.ofList ('"' :: quoteBody s.toList ++ ['"'])

def escapeMeaning (c : Char) : Char :=
  if c = 'n' then '\n' else if c = 't' then '\t' else if c = 'r' then '\r' else c

/-- Each backslash is resolved with the character after it; a backslash at the end stands for
itself. -/
def unescapeChars : List Char → List Char
  | [] => []
  | '\\' :: c :: rest => escapeMeaning c :: unescapeChars rest
  | c :: rest => c :: unescapeChars rest

def unescape (s : String) : String :=
  String.ofList (unescapeChars s.toList)

/-- A hash key stands bare when it is a name. -/
def key (s : String) : String :=
  if Text.isName s.toList then s else quote s

def truth (b : Bool) : String :=
  if b then "1" else "0"

end LineScript.Perl
