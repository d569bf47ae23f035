import LineScript.Text.Printable

/-!
# Texts shown in double quotes

A text is shown on one line between double quotes. Backslashes and double quotes are escaped,
control characters with a letter of their own get it, and every other character that is not
printable is written by its code point. In a log only the control characters that steer a terminal
are written by their codes.
-/
namespace LineScript.Text

def hexDigits (n : Nat) : List Char :=
  Nat.toDigits 16 n

def shownCodePoint (c : Char) : List Char :=
  ['\\', 'u', '{'] ++ hexDigits c.toNat ++ ['}']

def shownChar (c : Char) : List Char :=
  if c = '\x00' then ['\\', '0']
  else if c = '\t' then ['\\', 't']
  else if c = '\r' then ['\\', 'r']
  else if c = '\n' then ['\\', 'n']
  else if c = '"' ∨ c = '\\' then ['\\', c]
  else if isPrintable c then [c]
  else shownCodePoint c

def shown (s : String) : String :=
  String.ofList ('"' :: s.toList.flatMap shownChar ++ ['"'])

/-- Bell, backspace, form feed, escape and delete have a code of two digits; the controls above
them are written by their code points. -/
def loggedChar (c : Char) : List Char :=
  if c = '\x07' ∨ c = '\x08' ∨ c = '\x0c' then ['\\', 'x', '0'] ++ hexDigits c.toNat
  else if c = '\x1b' ∨ c = '\x7f' then ['\\', 'x'] ++ hexDigits c.toNat
  else if 0x80 ≤ c.toNat ∧ c.toNat ≤ 0x9f then shownCodePoint c
  else [c]

def logged (s : String) : String :=
  String.ofList (s.toList.flatMap loggedChar)

end LineScript.Text
