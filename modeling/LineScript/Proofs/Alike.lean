import LineScript.Proofs.Edits

/-!
# Alike stores

Two stores are alike if their blocks differ in elements only, and in these as a relation allows.
A computation that succeeds on one of them repeats on the other: it gives the same result and leads
to alike stores again.
-/
namespace LineScript

/-- If the computation succeeds in the first state, it does so in the second with the same result,
and the states after it are related. -/
def Repeats {σ α : Type} (Rel : σ → σ → Prop) (m : ExceptT Fault (StateM σ) α) (s t : σ) : Prop :=
  ∀ a s', Succeeds m s a s' → ∃ t', Succeeds m t a t' ∧ Rel s' t'

/-- Blocks that differ in their elements at most. -/
structure Block.Alike (R : List Element → List Element → Prop) (b b' : Block) : Prop where
  kind : b'.kind = b.kind
  closed : b'.closed = b.closed
  root : b'.root = b.root
  elements : R b.elements b'.elements

def Element.isDependency : Element → Bool
  | .statement (.dependency _) => true
  | _ => false

def Element.isSolid : Element → Bool
  | .text _ => false
  | _ => true

/-- The block that comes last among the elements, texts aside. -/
def lastBlock? (elements : List Element) : Option BlockId :=
  match elements.reverse.find? Element.isSolid with
  | some (.block id) => some id
  | _ => none

/-- A relation between the elements of blocks that stays as both blocks grow and does not show in
what comes last. -/
structure Inert (R : BlockId → List Element → List Element → Prop) : Prop where
  made : ∀ (id : Nat) es, 0 < id → R id es es
  snoc : ∀ id es es' e, R id es es' → R id (es ++ [e]) (es' ++ [e])
  last : ∀ id es es', R id es es' → lastBlock? es' = lastBlock? es

variable {R : BlockId → List Element → List Element → Prop}

namespace Store

structure Alike (R : BlockId → List Element → List Element → Prop) (s t : Store) : Prop where
  fresh : t.fresh = s.fresh
  size : t.size = s.size
  nonempty : 0 < s.size
  block : ∀ id b, s.get? id = some b → ∃ b', t.get? id = some b' ∧ b.Alike (R id) b'

namespace Alike

variable {s t : Store}

theorem get?_none (h : s.Alike R t) {id : BlockId} (hid : s.get? id = none) : t.get? id = none := by
  have hle : s.size ≤ id := Array.getElem?_eq_none_iff.mp hid
  rw [← h.size] at hle
  exact Array.getElem?_eq_none hle

end Alike

end Store

end LineScript
