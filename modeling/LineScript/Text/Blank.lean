/-!
# Blank characters

The characters with the Unicode property `White_Space`, and texts freed of them at either end.
The zero-width space and the byte order mark do not have the property and are kept.
-/
namespace LineScript.Text

def isBlank (c : Char) : Bool :=
  let n := c.toNat
  (0x9 ≤ n && n ≤ 0xd) || n == 0x20 || n == 0x85 || n == 0xa0 || n == 0x1680 ||
    (0x2000 ≤ n && n ≤ 0x200a) || n == 0x2028 || n == 0x2029 || n == 0x202f || n == 0x205f ||
    n == 0x3000

def trimLeft (s : List Char) : List Char :=
  s.dropWhile isBlank

def trimRight (s : List Char) : List Char :=
  (s.reverse.dropWhile isBlank).reverse

def trimBoth (s : List Char) : List Char :=
  trimRight (trimLeft s)

def trim (s : String) : String :=
  String.ofList (trimBoth s.toList)

def allBlank (s : String) : Bool :=
  s.toList.all isBlank

end LineScript.Text
