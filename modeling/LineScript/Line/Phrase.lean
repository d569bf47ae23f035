/-!
# Phrases

A phrase reads from the front of a line. Phrases are tried in order, and the first that is there
is taken; there is no return to a later alternative once one is taken. Beside its result, trying a
phrase tells how far into the line a named phrase was looked for and missed: the fewest characters
that were left at such a place.

Every word and symbol also takes the filler after it: spaces and tabs, and then a comment, which
reaches to the end of the text. A phrase hence always starts on the first character that counts.
-/
namespace LineScript.Line

def isSpace (c : Char) : Bool :=
  c == ' ' || c == '\t'

/-- Drops spaces and tabs, and a comment after them. -/
def skipFiller (s : List Char) : List Char :=
  match s.dropWhile isSpace with
  | '/' :: '/' :: _ => []
  | rest => rest

structure Attempt (α : Type) where
  found : Option (α × List Char)
  /-- The fewest characters left where a named phrase was missed. -/
  missed : Option Nat

def Phrase (α : Type) : Type :=
  List Char → Attempt α

def further (a b : Option Nat) : Option Nat :=
  Option.merge min a b

namespace Phrase

variable {α β : Type}

def absent : Phrase α :=
  fun _ => ⟨none, none⟩

def done (a : α) : Phrase α :=
  fun s => ⟨some (a, s), none⟩

def andThen (p : Phrase α) (f : α → Phrase β) : Phrase β := fun s =>
  match p s with
  | ⟨none, missed⟩ => ⟨none, missed⟩
  | ⟨some (a, rest), missed⟩ =>
    let after := f a rest
    ⟨after.found, further missed after.missed⟩

def either (p q : Phrase α) : Phrase α := fun s =>
  match p s with
  | ⟨none, missed⟩ =>
    let second := q s
    ⟨second.found, further missed second.missed⟩
  | taken => taken

instance : Monad Phrase where
  pure := done
  bind := andThen

instance : OrElse (Phrase α) where
  orElse p q := either p (q ())

/-- A phrase with a name: where it is not there, the place counts as missed. -/
def named (p : Phrase α) : Phrase α := fun s =>
  match p s with
  | ⟨none, missed⟩ => ⟨none, further missed (some s.length)⟩
  | taken => taken

def token (read : List Char → Option (α × List Char)) : Phrase α := fun s =>
  match read s with
  | some (a, rest) => ⟨some (a, skipFiller rest), none⟩
  | none => ⟨none, none⟩

def dropText : List Char → List Char → Option (Unit × List Char)
  | [], s => some ((), s)
  | c :: text, d :: s => if c = d then dropText text s else none
  | _ :: _, [] => none

/-- A fixed text; it has no name. -/
def symbol (text : String) : Phrase Unit :=
  token (dropText text.toList)

def optional (p : Phrase α) : Phrase (Option α) :=
  either (andThen p fun a => done (some a)) (done none)

def manyWithin : Nat → Phrase α → Phrase (List α)
  | 0, _ => done []
  | bound + 1, p =>
    either (andThen p fun a => andThen (manyWithin bound p) fun rest => done (a :: rest)) (done [])

/-- A phrase as often as it is there. A phrase that takes at least one character cannot be there
more often than the line has characters; it is tried once more to see that it is not. -/
def many (p : Phrase α) : Phrase (List α) :=
  fun s => manyWithin (s.length + 1) p s

def commaSeparated (p : Phrase α) : Phrase (List α) := do
  let first ← p
  let others ← many (do symbol ","; p)
  return first :: others

end Phrase

end LineScript.Line
