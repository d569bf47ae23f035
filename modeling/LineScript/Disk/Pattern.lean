import LineScript.Disk

/-!
# Patterns of paths

In a part of a path `*` stands for any characters, `?` for one, and brackets for one of a set. A
part that is `**` stands for any number of folders. The paths that match come in the order of
their names.
-/
namespace LineScript

inductive CharSet where
  | single (c : Char)
  | range (first last : Char)
deriving DecidableEq, Repr

def CharSet.holds (c : Char) : CharSet → Bool
  | single d => c == d
  | range first last => decide (first ≤ c ∧ c ≤ last)

def CharSet.ofChars : List Char → List CharSet
  | first :: '-' :: last :: rest => .range first last :: ofChars rest
  | c :: rest => .single c :: ofChars rest
  | [] => []

inductive PatternItem where
  | char (c : Char)
  | anyChar
  | anyText
  | anyFolders
  | oneOf (sets : List CharSet)
  | noneOf (sets : List CharSet)
deriving DecidableEq, Repr

structure PatternRefusal where
  position : Nat
  reason : String
deriving DecidableEq, Repr

def PatternRefusal.text (r : PatternRefusal) : String :=
  s!"Pattern syntax error near position {r.position}: {r.reason}"

namespace Pattern

def tooManyStars : String :=
  "wildcards are either regular `*` or recursive `**`"

def starsInName : String :=
  "recursive wildcards must form a single path component"

def openRange : String :=
  "invalid range pattern"

/-- The set of a bracket and what follows it. The first member may be a closing bracket. -/
def splitRange : List Char → Option (PatternItem × List Char)
  | '!' :: c :: rest =>
    match rest.dropWhile (· != ']') with
    | _ :: after => some (.noneOf (CharSet.ofChars (c :: rest.takeWhile (· != ']'))), after)
    | [] => none
  | c :: rest =>
    if c = '!' then none
    else
      match rest.dropWhile (· != ']') with
      | _ :: after => some (.oneOf (CharSet.ofChars (c :: rest.takeWhile (· != ']'))), after)
      | [] => none
  | [] => none

/-- The items of a pattern from a position on, where `before` is the character before it. The
bound counts the items still allowed, of which there are no more than characters. -/
def itemsWithin : Nat → Nat → Option Char → List Char → Except PatternRefusal (List PatternItem)
  | _, _, _, [] => .ok []
  | 0, _, _, _ => .ok []
  | bound + 1, position, before, c :: rest =>
    if c = '?' then do
      return .anyChar :: (← itemsWithin bound (position + 1) (some c) rest)
    else if c = '*' then
      let stars := (rest.takeWhile (· == '*')).length + 1
      let after := rest.dropWhile (· == '*')
      if 2 < stars then .error ⟨position + 2, tooManyStars⟩
      else if stars = 2 then
        if before = none ∨ before = some '/' then
          match after with
          | [] => .ok [.anyFolders]
          | '/' :: after => do
            return .anyFolders :: (← itemsWithin bound (position + 3) (some '/') after)
          | _ => .error ⟨position + 2, starsInName⟩
        else .error ⟨position - 1, starsInName⟩
      else do return .anyText :: (← itemsWithin bound (position + 1) (some c) after)
    else if c = '[' then
      match splitRange rest with
      | some (item, after) => do
        let taken := rest.length - after.length + 1
        return item :: (← itemsWithin bound (position + taken) (some ']') after)
      | none => .error ⟨position, openRange⟩
    else do return .char c :: (← itemsWithin bound (position + 1) (some c) rest)

def items (pattern : String) : Except PatternRefusal (List PatternItem) :=
  itemsWithin pattern.length 0 none pattern.toList

def accepts : List PatternItem → List Char → Bool
  | [], s => s.isEmpty
  | .anyText :: rest, s => acceptsTail rest s
  | .anyFolders :: rest, s => acceptsTail rest s
  | _ :: _, [] => false
  | .char c :: rest, d :: s => c == d && accepts rest s
  | .anyChar :: rest, _ :: s => accepts rest s
  | .oneOf sets :: rest, d :: s => sets.any (CharSet.holds d) && accepts rest s
  | .noneOf sets :: rest, d :: s => !sets.any (CharSet.holds d) && accepts rest s
where
  acceptsTail (rest : List PatternItem) : List Char → Bool
    | [] => accepts rest []
    | d :: s => accepts rest (d :: s) || acceptsTail rest s

def plainChar? : PatternItem → Option Char
  | .char c => some c
  | _ => none

def literal? (items : List PatternItem) : Option String :=
  (items.mapM plainChar?).map String.ofList

def isRecursive (items : List PatternItem) : Bool :=
  items.contains .anyFolders

def isHere (path : String) : Bool :=
  Path.trimmedParts (Path.parts path) == ["."]

def child (path name : String) : String :=
  if isHere path then name else Path.join path name

def namesIn (d : Disk) (path : String) : List String :=
  match d.locate path with
  | .ok place => d.names place
  | .error _ => []

/-- The dot entries that a pattern with a leading dot can mean. -/
def dotEntries (items : List PatternItem) : List String :=
  if items.head? = some (.char '.') then
    ["..", "."].filter fun name => accepts items name.toList
  else []

mutual

/-- The matches of the parts of a pattern inside a folder. -/
def inside (d : Disk) : Nat → List (List PatternItem) → String → List String
  | 0, _, _ => []
  | _, [], _ => []
  | bound + 1, part :: rest, path =>
    let go (next : String) : List String :=
      if rest.isEmpty then [next] else inside d bound rest next
    match literal? part with
    | some name =>
      let next := if isHere path then name else Path.join path name
      let there := if name = "." ∨ name = ".." then d.isFolder path else d.holds next
      if there then go next else []
    | none =>
      if d.isFolder path then
        (dotEntries part).flatMap (fun name => go (Path.join path name)) ++
          (namesIn d path).flatMap fun name => entry d bound (part :: rest) (child path name) name
      else []

/-- The matches of the parts of a pattern at or below an entry. -/
def entry (d : Disk) : Nat → List (List PatternItem) → String → String → List String
  | 0, _, _, _ => []
  | _, [], _, _ => []
  | bound + 1, part :: rest, path, name =>
    if isRecursive part then
      let rest := rest.dropWhile isRecursive
      let here :=
        match rest with
        | [] => if d.isFolder path then [path] else []
        | next :: more =>
          if accepts next name.toList then
            if more.isEmpty then [path] else inside d bound more path
          else []
      let below :=
        if d.isFolder path then
          (namesIn d path).flatMap fun name => entry d bound (part :: rest) (child path name) name
        else []
      here ++ below
    else if accepts part name.toList then
      if rest.isEmpty then [path] else inside d bound rest path
    else []

end

def split (pattern : String) : List String :=
  let relative := if Path.isAbsolute pattern then pattern.toList.drop 1 else pattern.toList
  let parts := (relative.splitOn '/').map String.ofList
  if parts.getLast? = some "" then parts.dropLast else parts

def files (d : Disk) (pattern : String) : Except PatternRefusal (List String) := do
  let _ ← items pattern
  let parts ← (split pattern).mapM items
  let bound := (parts.length + 1) * (d.entries.length + 2)
  let start := if Path.isAbsolute pattern then "/" else "."
  let found := inside d bound parts start
  if pattern.toList.getLast? = some '/' then return []
  return found.filter d.isFile

end Pattern

end LineScript
