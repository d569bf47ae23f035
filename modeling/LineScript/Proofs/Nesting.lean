import LineScript.Line.Construct
import Mathlib.Data.List.Basic

/-!
# Nesting of lines

Some lines open a scope and some close one. A list of lines is balanced if every opening line is
closed by a later line and every closing line closes an earlier one. `Encloses` says which opening
line a line stands in, and `Nested` lists the opening lines that the lines read so far leave open.
-/
namespace LineScript

namespace Construct

def opens : Construct → Bool
  | openScope => true
  | routine _ _ _ => true
  | condition _ _ => true
  | loop _ _ => true
  | attempt => true
  | signal _ _ => true
  | _ => false

def closes : Construct → Bool
  | closeScope => true
  | _ => false

def isAttempt : Construct → Bool
  | attempt => true
  | _ => false

theorem closes_eq_false_of_opens {c : Construct} (h : c.opens = true) : c.closes = false := by
  cases c <;> first | rfl | cases h

theorem opens_eq_false_of_closes {c : Construct} (h : c.closes = true) : c.opens = false := by
  cases c <;> first | rfl | cases h

theorem isAttempt_eq_false_of_not_opens {c : Construct} (h : c.opens = false) :
    c.isAttempt = false := by
  cases c <;> first | rfl | cases h

end Construct

inductive Balanced : List Construct → Prop where
  | nil : Balanced []
  | other {c : Construct} {rest : List Construct} (hopens : c.opens = false)
      (hcloses : c.closes = false) (hrest : Balanced rest) : Balanced (c :: rest)
  | scope {o c : Construct} {inner rest : List Construct} (hopens : o.opens = true)
      (hinner : Balanced inner) (hcloses : c.closes = true) (hrest : Balanced rest) :
      Balanced (o :: (inner ++ c :: rest))

namespace Balanced

theorem append {front back : List Construct} (hfront : Balanced front) (hback : Balanced back) :
    Balanced (front ++ back) := by
  induction hfront with
  | nil => exact hback
  | other hopens hcloses _ ih => exact .other hopens hcloses ih
  | scope hopens hinner hcloses _ _ ih =>
    rw [List.cons_append, List.append_assoc, List.cons_append]
    exact .scope hopens hinner hcloses ih

theorem snoc_other {front : List Construct} {c : Construct} (hfront : Balanced front)
    (hopens : c.opens = false) (hcloses : c.closes = false) : Balanced (front ++ [c]) :=
  hfront.append (.other hopens hcloses .nil)

theorem snoc_scope {front inner : List Construct} {o c : Construct} (hfront : Balanced front)
    (hopens : o.opens = true) (hinner : Balanced inner) (hcloses : c.closes = true) :
    Balanced (front ++ o :: inner ++ [c]) := by
  rw [List.append_assoc]
  exact hfront.append (.scope hopens hinner hcloses .nil)

end Balanced

/-- Line `j` is the innermost opening line that is still open where line `i` stands: what stands
between the two closes all that it opens, and nothing else. -/
def Encloses (lines : List Construct) (j i : Nat) : Prop :=
  j < i ∧ (∃ o, lines[j]? = some o ∧ o.opens = true) ∧ Balanced ((lines.take i).drop (j + 1))

theorem Encloses.append {lines : List Construct} {j i : Nat} (h : Encloses lines j i)
    (hi : i ≤ lines.length) (more : List Construct) : Encloses (lines ++ more) j i := by
  obtain ⟨hlt, ⟨o, ho, hopens⟩, hbalanced⟩ := h
  refine ⟨hlt, ⟨o, ?_, hopens⟩, ?_⟩
  · rw [List.getElem?_append_left (Nat.lt_of_lt_of_le hlt hi), ho]
  · rwa [List.take_append_of_le_length hi]

/-- The opening lines that the lines leave open, the innermost first. -/
inductive Nested : List Construct → List Nat → Prop where
  | outside {lines : List Construct} (h : Balanced lines) : Nested lines []
  | inside {front inner : List Construct} {o : Construct} {stack : List Nat}
      (hfront : Nested front stack) (hopens : o.opens = true) (hinner : Balanced inner) :
      Nested (front ++ o :: inner) (front.length :: stack)

namespace Nested

variable {lines : List Construct} {stack : List Nat} {c : Construct}

theorem snoc_other (h : Nested lines stack) (hopens : c.opens = false)
    (hcloses : c.closes = false) : Nested (lines ++ [c]) stack := by
  cases h with
  | outside h => exact .outside (h.snoc_other hopens hcloses)
  | inside hfront hopen hinner =>
    rw [List.append_assoc]
    exact .inside hfront hopen (hinner.snoc_other hopens hcloses)

theorem snoc_opens (h : Nested lines stack) (hopens : c.opens = true) :
    Nested (lines ++ [c]) (lines.length :: stack) :=
  .inside h hopens .nil

theorem snoc_closes {j : Nat} (h : Nested lines (j :: stack)) (hcloses : c.closes = true) :
    Nested (lines ++ [c]) stack := by
  cases h with
  | inside hfront hopens hinner =>
    cases hfront with
    | outside hbalanced => exact .outside (hbalanced.snoc_scope hopens hinner hcloses)
    | inside hfront' hopens' hinner' =>
      have hwhole := hinner'.snoc_scope hopens hinner hcloses
      simp only [List.append_assoc, List.cons_append] at hwhole ⊢
      exact .inside hfront' hopens' hwhole

theorem balanced (h : Nested lines []) : Balanced lines := by
  cases h with
  | outside h => exact h

theorem opener {i : Nat} (h : Nested lines (i :: stack)) :
    ∃ o, lines[i]? = some o ∧ o.opens = true := by
  cases h with
  | @inside front inner o _ hfront hopens hinner => exact ⟨o, by simp, hopens⟩

theorem take_balanced {i : Nat} (h : Nested lines [i]) : Balanced (lines.take i) := by
  cases h with
  | inside hfront _ _ =>
    rw [List.take_left]
    exact hfront.balanced

theorem encloses {i j : Nat} (h : Nested lines (i :: j :: stack)) : Encloses lines j i := by
  cases h with
  | inside hfront hopens hinner =>
    cases hfront with
    | @inside front inner o _ hfront' hopens' hinner' =>
      refine ⟨by simp, ⟨o, by simp, hopens'⟩, ?_⟩
      rw [List.take_left, List.append_cons, List.drop_left' (by simp)]
      exact hinner'

end Nested

end LineScript
