import LineScript.Perl.Quoted

/-!
# Literals

Values written out in a source. A number keeps its spelling, so that `1.50` stays `1.50`. The
native text of a literal is the bare Perl value, with no class around it.
-/
namespace LineScript

inductive Literal where
  | text (content : String)
  | number (spelling : String)
  | truth (value : Bool)
  | list (items : List Literal)
  | object (fields : List (String × Literal))
  | undefined
deriving Repr, Inhabited

namespace Literal

def ofInt (n : Int) : Literal :=
  .number (toString n)

/-- An optional minus sign and at least one digit. -/
def isIntegralText : List Char → Bool
  | '-' :: digits => !digits.isEmpty && digits.all Char.isDigit
  | digits => !digits.isEmpty && digits.all Char.isDigit

def isIntegral : Literal → Bool
  | number spelling => isIntegralText spelling.toList
  | _ => false

def shape : Literal → String
  | text _ => "string"
  | number _ => "number"
  | truth _ => "boolean"
  | list _ => "list"
  | object _ => "object"
  | undefined => "undef"

def bracketed (items : List String) : String :=
  "[" ++ ",".intercalate items ++ "]"

def braced (fields : List String) : String :=
  "\x7b" ++ ",".intercalate fields ++ "\x7d"

def fieldText (name value : String) : String :=
  Perl.key name ++ " => " ++ value

mutual

def native : Literal → String
  | text content => Perl.quote content
  | number spelling => spelling
  | truth value => Perl.truth value
  | list items => bracketed (nativeItems items)
  | object fields => braced (nativeFields fields)
  | undefined => "undef"

def nativeItems : List Literal → List String
  | [] => []
  | item :: rest => item.native :: nativeItems rest

def nativeFields : List (String × Literal) → List String
  | [] => []
  | (name, value) :: rest => fieldText name value.native :: nativeFields rest

end

end Literal

end LineScript
