import LineScript.Json

/-!
# Reading JSON

The strict grammar: no comments, no trailing commas, no leading zeros, nothing but blanks after
the document.
-/
namespace LineScript.Json

def isJsonBlank (c : Char) : Bool :=
  c == ' ' || c == '\t' || c == '\n' || c == '\r'

def skipBlanks (s : List Char) : List Char :=
  s.dropWhile isJsonBlank

def hexValue? (c : Char) : Option Nat :=
  if c.isDigit then some (c.toNat - '0'.toNat)
  else if 'a' ≤ c ∧ c ≤ 'f' then some (c.toNat - 'a'.toNat + 10)
  else if 'A' ≤ c ∧ c ≤ 'F' then some (c.toNat - 'A'.toNat + 10)
  else none

def hexUnit? (a b c d : Char) : Option Nat := do
  return ((((← hexValue? a) * 16 + (← hexValue? b)) * 16 + (← hexValue? c)) * 16 + (← hexValue? d))

def isHighHalf (unit : Nat) : Bool :=
  0xd800 ≤ unit && unit ≤ 0xdbff

def isLowHalf (unit : Nat) : Bool :=
  0xdc00 ≤ unit && unit ≤ 0xdfff

def simpleEscape? (c : Char) : Option Char :=
  match c with
  | '"' => some '"'
  | '\\' => some '\\'
  | '/' => some '/'
  | 'b' => some '\x08'
  | 'f' => some '\x0c'
  | 'n' => some '\n'
  | 'r' => some '\r'
  | 't' => some '\t'
  | _ => none

/-- Adds a character, or spoils the text where there is none to add. -/
def addChar (c : Option Char) (read : Option (Option (List Char) × List Char)) :
    Option (Option (List Char) × List Char) :=
  read.map fun (chars, rest) => (c.bind fun c => chars.map (c :: ·), rest)

/-- The text up to the closing mark. It is spoilt by half of a surrogate pair. -/
def splitText : List Char → Option (Option (List Char) × List Char)
  | [] => none
  | '"' :: rest => some (some [], rest)
  | '\\' :: 'u' :: a :: b :: c :: d :: rest =>
    match hexUnit? a b c d with
    | none => none
    | some unit =>
      if isHighHalf unit then
        match rest with
        | '\\' :: 'u' :: e :: f :: g :: h :: after =>
          match hexUnit? e f g h with
          | none => none
          | some low =>
            if isLowHalf low then
              let code := 0x10000 + (unit - 0xd800) * 0x400 + (low - 0xdc00)
              addChar (some (Char.ofNat code)) (splitText after)
            else addChar none (splitText ('\\' :: 'u' :: e :: f :: g :: h :: after))
        | other => addChar none (splitText other)
      else if isLowHalf unit then addChar none (splitText rest)
      else addChar (some (Char.ofNat unit)) (splitText rest)
  | '\\' :: c :: rest =>
    match simpleEscape? c with
    | some c => addChar (some c) (splitText rest)
    | none => none
  | c :: rest => if c.toNat < 0x20 ∨ c = '\\' then none else addChar (some c) (splitText rest)

def splitDigitRun (s : List Char) : Option (List Char × List Char) :=
  match s.takeWhile Char.isDigit with
  | [] => none
  | digits => some (digits, s.dropWhile Char.isDigit)

/-- A zero, or digits that do not start with one. -/
def splitWhole : List Char → Option (List Char × List Char)
  | '0' :: rest => if (rest.head?.map Char.isDigit).getD false then none else some (['0'], rest)
  | s => splitDigitRun s

def splitFraction : List Char → Option (List Char × List Char)
  | '.' :: rest => (splitDigitRun rest).map fun (digits, after) => ('.' :: digits, after)
  | s => some ([], s)

def splitExponent : List Char → Option (List Char × List Char)
  | c :: rest =>
    if c = 'e' ∨ c = 'E' then
      match rest with
      | '+' :: after => (splitDigitRun after).map fun (digits, left) => (c :: '+' :: digits, left)
      | '-' :: after => (splitDigitRun after).map fun (digits, left) => (c :: '-' :: digits, left)
      | after => (splitDigitRun after).map fun (digits, left) => (c :: digits, left)
    else some ([], c :: rest)
  | [] => some ([], [])

def splitUnsignedNumber (s : List Char) : Option (List Char × List Char) := do
  let (whole, rest) ← splitWhole s
  let (fraction, rest) ← splitFraction rest
  let (exponent, rest) ← splitExponent rest
  return (whole ++ fraction ++ exponent, rest)

def splitNumber : List Char → Option (List Char × List Char)
  | '-' :: rest => (splitUnsignedNumber rest).map fun (spelling, after) => ('-' :: spelling, after)
  | s => splitUnsignedNumber s

mutual

def valueWithin : Nat → List Char → Option (Json × List Char)
  | 0, _ => none
  | bound + 1, s =>
    match skipBlanks s with
    | 'n' :: 'u' :: 'l' :: 'l' :: rest => some (.null, rest)
    | 't' :: 'r' :: 'u' :: 'e' :: rest => some (.bool true, rest)
    | 'f' :: 'a' :: 'l' :: 's' :: 'e' :: rest => some (.bool false, rest)
    | '"' :: rest =>
      match splitText rest with
      | some (some content, after) => some (.text (String.ofList content), after)
      | some (none, after) => some (.halfPair, after)
      | none => none
    | '[' :: rest =>
      match skipBlanks rest with
      | ']' :: after => some (.array [], after)
      | rest => (itemsWithin bound rest).map fun (items, after) => (.array items, after)
    | '{' :: rest =>
      match skipBlanks rest with
      | '}' :: after => some (.object [], after)
      | rest => (membersWithin bound rest).map fun (members, after) =>
        ((members.map Json.object).getD .halfPair, after)
    | s => (splitNumber s).map fun (spelling, after) =>
      (.number (String.ofList spelling), after)

def itemsWithin : Nat → List Char → Option (List Json × List Char)
  | 0, _ => none
  | bound + 1, s =>
    match valueWithin bound s with
    | none => none
    | some (item, rest) =>
      match skipBlanks rest with
      | ']' :: after => some ([item], after)
      | ',' :: after => (itemsWithin bound after).map fun (items, left) => (item :: items, left)
      | _ => none

/-- The members up to the closing brace. They are spoilt by a key that is. -/
def membersWithin : Nat → List Char → Option (Option (List (String × Json)) × List Char)
  | 0, _ => none
  | bound + 1, s =>
    match skipBlanks s with
    | '"' :: rest =>
      match splitText rest with
      | some (key, after) =>
        match skipBlanks after with
        | ':' :: after =>
          match valueWithin bound after with
          | none => none
          | some (value, rest) =>
            let member := key.map fun key => (String.ofList key, value)
            match skipBlanks rest with
            | '}' :: after => some (member.map fun member => [member], after)
            | ',' :: after =>
              (membersWithin bound after).map fun (members, left) =>
                (member.bind fun member => members.map (member :: ·), left)
            | _ => none
        | _ => none
      | none => none
    | _ => none

end

/-- The document that a text is. Two steps are enough for every character. -/
def ofText? (s : String) : Option Json :=
  match valueWithin (2 * s.toList.length + 2) s.toList with
  | some (value, rest) => if (skipBlanks rest).isEmpty then some value else none
  | none => none

end LineScript.Json
