import LineScript.Path
import LineScript.Text.Lines

/-!
# Files and folders

A disk holds its files and folders by their place under the root. Paths are read from the working
folder and step by step: every part but the last has to be a folder. Names have at most 255 bytes,
paths fewer than 4096, and neither holds the null character.
-/
namespace LineScript

inductive Content where
  | text (content : String)
  | bytes (content : List UInt8)
deriving DecidableEq, Repr, Inhabited

inductive DiskEntry where
  | folder
  | file (content : Content)
deriving DecidableEq, Repr, Inhabited

/-- The names of the folders around an entry and its own, from the root. -/
abbrev Place := List String

structure Disk where
  entries : List (Place × DiskEntry)
  /-- The place that relative paths start from. -/
  working : Place
deriving DecidableEq, Repr, Inhabited

inductive Refusal where
  | missing
  | present
  | notFolder
  | isFolder
  | notText
  | tooLong
  | holdsNull
  /-- The path is nothing that a file can be moved to. -/
  | invalid
  /-- The path names a folder by a dot or two. -/
  | busy
deriving DecidableEq, Repr, Inhabited

def Refusal.text : Refusal → String
  | missing => "No such file or directory (os error 2)"
  | present => "File exists (os error 17)"
  | notFolder => "Not a directory (os error 20)"
  | isFolder => "Is a directory (os error 21)"
  | notText => "stream did not contain valid UTF-8"
  | tooLong => "File name too long (os error 36)"
  | holdsNull => "file name contained an unexpected NUL byte"
  | invalid => "Invalid argument (os error 22)"
  | busy => "Device or resource busy (os error 16)"

def Content.ofBytes (bytes : List UInt8) : Content :=
  match String.fromUTF8? ⟨bytes.toArray⟩ with
  | some content => .text content
  | none => .bytes bytes

namespace Disk

/-- A disk with nothing but the working folder and the folders around it. -/
def ofWorking (working : Place) : Disk :=
  ⟨(List.range working.length).map fun n => (working.take (n + 1), .folder), working⟩

/-- The entry at a place. The root is always a folder. -/
def get? (d : Disk) (place : Place) : Option DiskEntry :=
  if place = [] then some .folder else d.entries.lookup place

def put (d : Disk) (place : Place) (entry : DiskEntry) : Disk :=
  if (d.entries.lookup place).isSome then
    { d with entries := d.entries.map fun (p, e) => if p = place then (p, entry) else (p, e) }
  else { d with entries := d.entries ++ [(place, entry)] }

def isFolderAt (d : Disk) (place : Place) : Bool :=
  d.get? place == some .folder

def isLongName (name : String) : Bool :=
  255 < name.utf8ByteSize

def step (d : Disk) (place : Place) (part : String) : Except Refusal Place :=
  if !d.isFolderAt place then .error .notFolder
  else if part = "" ∨ part = "." then .ok place
  else if part = ".." then .ok place.dropLast
  else if isLongName part then .error .tooLong
  else
    match d.get? (place ++ [part]) with
    | some _ => .ok (place ++ [part])
    | none => .error .missing

def start (d : Disk) (path : String) : Place :=
  if Path.isAbsolute path then [] else d.working

def holdsNull (path : String) : Bool :=
  path.toList.contains '\x00'

def checkPath (path : String) : Except Refusal Unit :=
  if holdsNull path then .error .holdsNull
  else if path = "" then .error .missing
  else if 4096 ≤ path.utf8ByteSize then .error .tooLong
  else .ok ()

def locate (d : Disk) (path : String) : Except Refusal Place := do
  checkPath path
  (Path.parts path).foldlM d.step (d.start path)

def entry (d : Disk) (path : String) : Except Refusal DiskEntry := do
  let place ← d.locate path
  match d.get? place with
  | some entry => return entry
  | none => throw .missing

def holds (d : Disk) (path : String) : Bool :=
  (d.entry path).toOption.isSome

def isFile (d : Disk) (path : String) : Bool :=
  match d.entry path with
  | .ok (.file _) => true
  | _ => false

def isFolder (d : Disk) (path : String) : Bool :=
  match d.entry path with
  | .ok .folder => true
  | _ => false

def read (d : Disk) (path : String) : Except Refusal String := do
  match ← d.entry path with
  | .file (.text content) => return content
  | .file (.bytes _) => throw .notText
  | .folder => throw .isFolder

/-- The folder around what a path names, and the last part of the path. -/
def locateParent (d : Disk) (path : String) : Except Refusal (Place × String) := do
  checkPath path
  match ((Path.parts path).reverse.dropWhile (· == "")) with
  | [] => return ([], ".")
  | last :: before =>
    let place ← before.reverse.foldlM d.step (d.start path)
    if d.isFolderAt place then return (place, last) else throw .notFolder

def makeFolder (d : Disk) (path : String) : Except Refusal Disk := do
  let (place, name) ← d.locateParent path
  if name = "." ∨ name = ".." then throw .present
  if isLongName name then throw .tooLong
  if (d.get? (place ++ [name])).isSome then throw .present
  return d.put (place ++ [name]) .folder

/-- Makes the first folder of a list; where the folder around it is missing, first the rest of the
list. A folder that is there already is as good as a new one. Those that were made stay. -/
def makeFoldersAlong (d : Disk) : List String → Except Refusal Unit × Disk
  | [] => (.ok (), d)
  | path :: around =>
    match d.makeFolder path with
    | .ok d => (.ok (), d)
    | .error .missing =>
      match d.makeFoldersAlong around with
      | (.error refusal, d) => (.error refusal, d)
      | (.ok (), d) =>
        match d.makeFolder path with
        | .ok d => (.ok (), d)
        | .error refusal => (.error refusal, d)
    | .error refusal =>
      if refusal = .present ∧ d.isFolder path then (.ok (), d) else (.error refusal, d)

def makeFolders (d : Disk) (path : String) : Except Refusal Unit × Disk :=
  d.makeFoldersAlong (Path.ancestors path)

/-- Moves a finished text to a path, over a file that is there. -/
def replace (d : Disk) (path text : String) : Except Refusal Disk := do
  if holdsNull path then throw .invalid
  let (place, name) ← d.locateParent path
  if name = "." ∨ name = ".." then throw .busy
  if isLongName name then throw .tooLong
  if path.toList.getLast? = some '/' then throw .notFolder
  match d.get? (place ++ [name]) with
  | some .folder => throw .isFolder
  | _ => return d.put (place ++ [name]) (.file (.text text))

/-- Writes a file, whole or not at all. The folders around it are made first and stay. -/
def write (d : Disk) (path text : String) : Except Refusal Unit × Disk :=
  let folder :=
    match Path.parent path with
    | some "" | none => "."
    | some folder => folder
  match d.makeFolders folder with
  | (.error refusal, d) => (.error refusal, d)
  | (.ok (), d) =>
    match d.replace path text with
    | .ok d => (.ok (), d)
    | .error refusal => (.error refusal, d)

def names (d : Disk) (place : Place) : List String :=
  (d.entries.filterMap fun (p, _) =>
    match p.reverse with
    | name :: around => if around.reverse = place then some name else none
    | [] => none).mergeSort fun a b => decide (a ≤ b)

/-- Adds a file under the working folder, with the folders around it. A path that ends with a
slash is an empty folder. -/
def addFile (d : Disk) (path : String) (content : Content) : Disk :=
  let names := Path.names path
  let folders := if path.toList.getLast? = some '/' then names else names.dropLast
  let d := (List.range folders.length).foldl
    (fun d n =>
      let place := d.working ++ folders.take (n + 1)
      if (d.get? place).isSome then d else d.put place .folder) d
  if path.toList.getLast? = some '/' then d else d.put (d.working ++ names) (.file content)

def textsAt (d : Disk) : List (Place × String) :=
  d.entries.filterMap fun (place, entry) =>
    match entry with
    | .file (.text content) => some (place, content)
    | _ => none

/-- The text files that are new or changed on the second disk. -/
def changesAt (before after : Disk) : List (Place × String) :=
  let known := before.textsAt
  after.textsAt.filter fun file => !known.contains file

def fromWorking (d : Disk) (files : List (Place × String)) : List (String × String) :=
  files.filterMap fun (place, content) =>
    if d.working.isPrefixOf place then
      some (Text.joinWith "/" (place.drop d.working.length), content)
    else none

def texts (d : Disk) : List (String × String) :=
  d.fromWorking d.textsAt

def changes (before after : Disk) : List (String × String) :=
  after.fromWorking (before.changesAt after)

end Disk

end LineScript
