/-!
# Kinds of values

The seven kinds a value of the language can have, how sources and diagnostics spell them, the
class that stands for a kind in the generated program, and which kind may flow into which.
-/
namespace LineScript

inductive Kind where
  | string
  | integer
  | boolean
  | array
  | map
  | hash
  | scalar
deriving DecidableEq, Repr, Inhabited

/-- How a value of one kind gets into a place of another. -/
inductive Flow where
  | exact
  | unwrapped
  | refused
deriving DecidableEq, Repr

namespace Kind

def all : List Kind :=
  [string, integer, boolean, array, map, hash, scalar]

def name : Kind → String
  | string => "string"
  | integer => "integer"
  | boolean => "boolean"
  | array => "array"
  | map => "map"
  | hash => "hash"
  | scalar => "scalar"

/-- The spelling in sources. -/
def surface : Kind → String
  | string => "String"
  | integer => "Int"
  | boolean => "Boolean"
  | array => "Array"
  | map => "Map"
  | hash => "Hash"
  | scalar => "Scalar"

def className : Kind → String
  | string => "stdlib::string"
  | integer => "stdlib::integer"
  | boolean => "stdlib::boolean"
  | array => "stdlib::array"
  | map => "stdlib::hashmap"
  | hash => "hash"
  | scalar => "scalar"

/-- Values of the kind are bare values of the generated program, not objects. -/
def isNative : Kind → Bool
  | hash | scalar => true
  | _ => false

def isContainer : Kind → Bool
  | array | map => true
  | _ => false

/-- Kinds that wrap a single scalar. -/
def isWrapped : Kind → Bool
  | string | integer | boolean => true
  | _ => false

def isElement (k : Kind) : Bool :=
  k.isWrapped || k == scalar

/-- A place takes values of its own kind; a scalar place also takes what a wrapper holds. -/
def accepts (target source : Kind) : Flow :=
  if target = source then .exact
  else if target = scalar ∧ source.isWrapped then .unwrapped
  else .refused

/-- The kind that a trimmed word names: by either spelling, or by a common alternative. -/
def ofWord? (word : String) : Option Kind :=
  match all.find? fun k => k.name == word || k.surface == word with
  | some k => some k
  | none =>
    if word = "Bool" ∨ word = "bool" then some boolean
    else if word = "Integer" ∨ word = "int" then some integer
    else none

def describe (kind : Kind) (element : Option Kind) : String :=
  match element with
  | some e => if kind.isContainer then s!"{kind.name}<{e.name}>" else kind.name
  | none => kind.name

end Kind

end LineScript
