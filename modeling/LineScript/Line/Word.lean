import LineScript.Line.Phrase
import LineScript.Perl.Quoted
import LineScript.Text.Quoting

/-!
# Words

The words of a line that are read character by character: names, module paths, keywords, numbers,
quoted strings and chains of method calls. Inside a word nothing is skipped.
-/
namespace LineScript.Line

open Phrase

/-- A keyword is not followed by a character that would make it a longer name. -/
def splitKeyword (text s : List Char) : Option (Unit × List Char) :=
  match dropText text s with
  | some ((), rest) =>
    if (rest.head?.map Text.continuesName).getD false then none else some ((), rest)
  | none => none

def splitDigits (s : List Char) : Option (List Char × List Char) :=
  match s.takeWhile Char.isDigit with
  | [] => none
  | digits => some (digits, s.dropWhile Char.isDigit)

/-- Digits, and a fraction if a digit follows the point. -/
def splitUnsigned (s : List Char) : Option (List Char × List Char) :=
  match splitDigits s with
  | some (whole, '.' :: rest) =>
    match splitDigits rest with
    | some (fraction, after) => some (whole ++ '.' :: fraction, after)
    | none => some (whole, '.' :: rest)
  | other => other

def splitNumber : List Char → Option (List Char × List Char)
  | '-' :: rest => (splitUnsigned rest).map fun (number, after) => ('-' :: number, after)
  | s => splitUnsigned s

/-- The text up to a closing mark. A backslash takes the next character with it. -/
def splitQuoted (mark : Char) : List Char → Option (List Char × List Char)
  | [] => none
  | '\\' :: c :: rest =>
    (splitQuoted mark rest).map fun (body, after) => ('\\' :: c :: body, after)
  | c :: rest =>
    if c = mark then some ([], rest)
    else (splitQuoted mark rest).map fun (body, after) => (c :: body, after)

def splitString : List Char → Option (List Char × List Char)
  | c :: rest => if Text.isQuoteMark c then splitQuoted c rest else none
  | [] => none

def closerOf (c : Char) : Char :=
  if c = '(' then ')' else if c = '[' then ']' else '}'

/-- The text up to the last awaited closing bracket. Brackets outside quotes have to nest, each
closed by its own kind. -/
def splitNested : Text.Quoting → Char → List Char → List Char → Option (List Char × List Char)
  | _, _, _, [] => none
  | .outside, awaited, outer, c :: rest =>
    if Text.opensBracket c then
      (splitNested .outside (closerOf c) (awaited :: outer) rest).map fun (inner, after) =>
        (c :: inner, after)
    else if Text.closesBracket c then
      if c = awaited then
        match outer with
        | [] => some ([], rest)
        | next :: outer =>
          (splitNested .outside next outer rest).map fun (inner, after) => (c :: inner, after)
      else none
    else
      (splitNested (Text.Quoting.outside.next c) awaited outer rest).map fun (inner, after) =>
        (c :: inner, after)
  | quoting, awaited, outer, c :: rest =>
    (splitNested (quoting.next c) awaited outer rest).map fun (inner, after) => (c :: inner, after)

/-- A dot and a method's name, with arguments in parentheses if they close. -/
def splitCall : List Char → Option (List Char × List Char)
  | '.' :: rest =>
    match Text.splitName rest with
    | some (name, '(' :: after) =>
      match splitNested .outside ')' [] after with
      | some (arguments, left) => some ('.' :: name ++ '(' :: arguments ++ [')'], left)
      | none => some ('.' :: name, '(' :: after)
    | some (name, after) => some ('.' :: name, after)
    | none => none
  | _ => none

def splitCallsWithin : Nat → List Char → List Char × List Char
  | 0, s => ([], s)
  | bound + 1, s =>
    match splitCall s with
    | some (call, rest) =>
      let (calls, left) := splitCallsWithin bound rest
      (call ++ calls, left)
    | none => ([], s)

def splitChain (s : List Char) : Option (List Char × List Char) :=
  match splitCall s with
  | some (call, rest) =>
    let (calls, left) := splitCallsWithin rest.length rest
    some (call ++ calls, left)
  | none => none

def word (read : List Char → Option (List Char × List Char)) : Phrase String :=
  named (token fun s => (read s).map fun (chars, rest) => (String.ofList chars, rest))

def name : Phrase String :=
  word Text.splitName

def modulePath : Phrase String :=
  word Text.splitModulePath

def number : Phrase String :=
  word splitNumber

def string : Phrase String :=
  named (token fun s =>
    (splitString s).map fun (body, rest) => (String.ofList (Perl.unescapeChars body), rest))

def chain : Phrase String :=
  word splitChain

def keyword (text : String) : Phrase Unit :=
  named (token (splitKeyword text.toList))

end LineScript.Line
