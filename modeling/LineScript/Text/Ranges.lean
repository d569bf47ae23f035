/-!
# Sets of characters

A set of characters is listed by the code points at which membership changes, in increasing order:
the first member, the first code point after it that is none, the next member, and so on.
-/
namespace LineScript.Text

/-- The number of changes up to and at the code point is odd. -/
def isInside (changes : List Nat) (c : Char) : Bool :=
  (changes.takeWhile (· ≤ c.toNat)).length % 2 == 1

end LineScript.Text
