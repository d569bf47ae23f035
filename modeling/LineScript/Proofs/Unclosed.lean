import LineScript.Proofs.Constructs
import Mathlib.Data.List.Infix

/-!
# Quotes and parentheses that do not close

What is read from a line one way and what is read from it another way meet the same quotes and the
same parentheses, as these show in the characters alone. If one way reads a line to its end, no
other way can come to a quote or to a parenthesis that the line leaves open.
-/
namespace LineScript

namespace Text

/-- The quoting and the number of open parentheses after a character. -/
def parenStep : Quoting × Int → Char → Quoting × Int
  | (.outside, depth), c =>
    (Quoting.outside.next c, if c = '(' then depth + 1 else if c = ')' then depth - 1 else depth)
  | (quoting, depth), c => (quoting.next c, depth)

def parens (state : Quoting × Int) (t : List Char) : Quoting × Int :=
  t.foldl parenStep state

/-- Inside quotes or parentheses. -/
def Pending (state : Quoting × Int) : Prop :=
  state.1 = .outside → 0 < state.2

section Counting

variable {quoting : Quoting} {depth : Int} {t u : List Char} {c : Char}

theorem parens_append (state : Quoting × Int) (t u : List Char) :
    parens state (t ++ u) = parens (parens state t) u :=
  List.foldl_append

theorem parenStep_add (state : Quoting × Int) (k : Int) (c : Char) :
    parenStep (state.1, state.2 + k) c = ((parenStep state c).1, (parenStep state c).2 + k) := by
  obtain ⟨quoting, depth⟩ := state
  cases quoting with
  | inside _ | escaped _ => rfl
  | outside =>
    simp only [parenStep]
    split_ifs
    · rw [Int.add_right_comm]
    · rw [Int.sub_eq_add_neg, Int.sub_eq_add_neg, Int.add_right_comm]
    · rfl

/-- Parentheses that are open before a text stay open. -/
theorem parens_add (state : Quoting × Int) (k : Int) (t : List Char) :
    parens (state.1, state.2 + k) t = ((parens state t).1, (parens state t).2 + k) := by
  induction t generalizing state with
  | nil => rfl
  | cons c t ih =>
    have hstep := parenStep_add state k c
    change parens (parenStep (state.1, state.2 + k) c) t = _
    rw [hstep, ih]
    rfl

theorem Pending.add {k : Int} {state : Quoting × Int} (h : Pending state) (hk : 0 ≤ k) :
    Pending (state.1, state.2 + k) :=
  fun houtside => Int.add_pos_of_pos_of_nonneg (h houtside) hk

/-- A character that is part of no quote, parenthesis or comment. -/
def isPlain (c : Char) : Bool :=
  !isQuoteMark c && c != '(' && c != ')' && c != '/'

theorem parenStep_plain (h : isPlain c = true) :
    parenStep (.outside, depth) c = (.outside, depth) := by
  simp only [isPlain, Bool.and_eq_true, Bool.not_eq_true', bne_iff_ne, ne_eq] at h
  rw [parenStep, if_neg h.1.1.2, if_neg h.1.2, Quoting.next, if_neg (by simp [h.1.1.1])]

end Counting

/-- A text that can be part of a line as it is read: it ends outside quotes with some parentheses
open, and a slash in it is no comment, as it is inside quotes or parentheses. -/
structure Spans (t : List Char) (depth : Int) : Prop where
  state : parens (.outside, 0) t = (.outside, depth)
  slashes : ∀ a b, t = a ++ '/' :: b → Pending (parens (.outside, 0) a)

namespace Spans

variable {t u : List Char} {m n : Int}

theorem parens_append (h : Spans t m) (u : List Char) :
    parens (.outside, 0) (t ++ u) =
      ((parens (.outside, 0) u).1, (parens (.outside, 0) u).2 + m) := by
  have hadd := parens_add (.outside, 0) m u
  rw [Int.zero_add] at hadd
  rw [Text.parens_append, h.state, hadd]

theorem append (ht : Spans t m) (hm : 0 ≤ m) (hu : Spans u n) : Spans (t ++ u) (m + n) where
  state := by rw [ht.parens_append, hu.state, Int.add_comm]
  slashes := by
    intro a b heq
    rcases List.append_eq_append_iff.mp heq with ⟨mid, rfl, hmid⟩ | ⟨mid, rfl, hmid⟩
    · rw [ht.parens_append]
      exact (hu.slashes mid b hmid).add hm
    · cases mid with
      | nil =>
        have hpending := hu.slashes [] b hmid.symm
        exact absurd (hpending rfl) (Int.lt_irrefl 0)
      | cons c mid =>
        obtain ⟨rfl, rfl⟩ := List.cons.inj hmid
        exact ht.slashes a mid rfl

theorem nil : Spans [] 0 :=
  ⟨rfl, fun a b heq => by simp at heq⟩

theorem plain (h : ∀ c ∈ t, isPlain c = true) : Spans t 0 := by
  constructor
  · induction t with
    | nil => rfl
    | cons c t ih =>
      rw [List.forall_mem_cons] at h
      change parens (parenStep (.outside, 0) c) t = _
      rw [parenStep_plain h.1, ih h.2]
  · rintro a b rfl
    exact absurd (h '/' (by simp)) (by decide)

theorem append_plain (ht : Spans t m) (hu : ∀ c ∈ u, isPlain c = true) : Spans (t ++ u) m where
  state := by rw [ht.parens_append, (plain hu).state, Int.zero_add]
  slashes := by
    intro a b heq
    rcases List.append_eq_append_iff.mp heq with ⟨mid, rfl, rfl⟩ | ⟨mid, rfl, hmid⟩
    · exact absurd (hu '/' (by simp)) (by decide)
    · cases mid with
      | nil =>
        rw [List.nil_append] at hmid
        exact absurd (hu '/' (hmid ▸ List.mem_cons_self)) (by decide)
      | cons c mid =>
        obtain ⟨rfl, rfl⟩ := List.cons.inj hmid
        exact ht.slashes a mid rfl

end Spans

/-- All through the text some quotes or parentheses are open. -/
def Stays (state : Quoting × Int) (t : List Char) : Prop :=
  ∀ v, v <+: t → Pending (parens state v)

theorem stays_nil {state : Quoting × Int} : Stays state [] ↔ Pending state := by
  simp [Stays, parens]

theorem stays_cons {state : Quoting × Int} {c : Char} {t : List Char} :
    Stays state (c :: t) ↔ Pending state ∧ Stays (parenStep state c) t := by
  constructor
  · intro h
    exact ⟨h [] List.nil_prefix, fun v hv => h (c :: v) (List.cons_prefix_cons.mpr ⟨rfl, hv⟩)⟩
  · rintro ⟨hstate, h⟩ v hv
    cases v with
    | nil => exact hstate
    | cons d v =>
      obtain ⟨rfl, htail⟩ := List.cons_prefix_cons.mp hv
      exact h v htail

/-- A text in quotes or in parentheses: it closes with its last character and not before. -/
theorem Spans.closed {c d : Char} {body : List Char} (hc : c ≠ '/')
    (hbody : Stays (parenStep (.outside, 0) c) body)
    (hstate : parens (.outside, 0) (c :: (body ++ [d])) = (.outside, 0)) :
    Spans (c :: (body ++ [d])) 0 := by
  refine ⟨hstate, fun a b heq => ?_⟩
  cases a with
  | nil => exact absurd (List.cons.inj heq).1 hc
  | cons e a =>
    obtain ⟨rfl, htail⟩ : c = e ∧ body ++ [d] = a ++ '/' :: b := List.cons.inj heq
    have hprefix : a <+: body ++ [d] := htail ▸ List.prefix_append a _
    have hlength := congrArg List.length htail
    simp only [List.length_append, List.length_cons, List.length_nil] at hlength
    exact hbody a (List.prefix_of_prefix_length_le hprefix (List.prefix_append _ _) (by omega))

/-- A text that starts with a quotation mark or a parenthesis and does not close it. -/
def Unclosed (u : List Char) : Prop :=
  ∃ c rest, u = c :: rest ∧ Stays (parenStep (.outside, 0) c) rest

end Text

namespace Line

open Text

/-- Some way to read the line comes to a quote or to a parenthesis that is not closed. -/
def Doomed (s : List Char) : Prop :=
  ∃ front m u, s = front ++ u ∧ Spans front m ∧ 0 ≤ m ∧ Unclosed u

/-- What is left of a line after a part of it that leaves some parentheses open, and after a
comment if there is one. -/
def Eats (depth : Int) (s rest : List Char) : Prop :=
  ∃ front, Spans front depth ∧
    (s = front ++ rest ∨ rest = [] ∧ ∃ text, s = front ++ '/' :: '/' :: text)

variable {s rest left front : List Char} {m n : Int}

theorem doomed_append (hfront : Spans front m) (hm : 0 ≤ m) (h : Doomed s) :
    Doomed (front ++ s) := by
  obtain ⟨front', n, u, rfl, hfront', hn, hu⟩ := h
  exact ⟨front ++ front', m + n, u, by rw [List.append_assoc], hfront.append hm hfront',
    Int.add_nonneg hm hn, hu⟩

theorem not_doomed_nil : ¬ Doomed [] := by
  rintro ⟨front, m, _, heq, _, _, c, rest, rfl, _⟩
  simp at heq

namespace Eats

theorem refl (s : List Char) : Eats 0 s s :=
  ⟨[], .nil, Or.inl rfl⟩

theorem trans (h : Eats m s rest) (hm : 0 ≤ m) (h' : Eats n rest left) : Eats (m + n) s left := by
  obtain ⟨front, hfront, rfl | ⟨rfl, text, rfl⟩⟩ := h
  · obtain ⟨back, hback, rfl | ⟨rfl, text, rfl⟩⟩ := h'
    · exact ⟨front ++ back, hfront.append hm hback, Or.inl (List.append_assoc _ _ _).symm⟩
    · exact ⟨front ++ back, hfront.append hm hback,
        Or.inr ⟨rfl, text, (List.append_assoc _ _ _).symm⟩⟩
  · obtain ⟨back, hback, heq | ⟨_, text', heq⟩⟩ := h'
    · obtain ⟨rfl, rfl⟩ := List.append_eq_nil_iff.mp heq.symm
      have hspans := hfront.append hm hback
      rw [List.append_nil] at hspans
      exact ⟨front, hspans, Or.inr ⟨rfl, text, rfl⟩⟩
    · simp at heq

theorem doomed (h : Eats m s rest) (hm : 0 ≤ m) (hrest : Doomed rest) : Doomed s := by
  obtain ⟨front, hfront, rfl | ⟨rfl, _⟩⟩ := h
  · exact doomed_append hfront hm hrest
  · exact absurd hrest not_doomed_nil

theorem length_le (h : Eats m s rest) : rest.length ≤ s.length := by
  obtain ⟨front, _, rfl | ⟨rfl, _⟩⟩ := h
  · simp
  · exact Nat.zero_le _

/-- A line that is read to its end is not doomed: where it is at its end or at a comment, no quote
and no parenthesis is open. -/
theorem not_doomed (h : Eats 0 s []) : ¬ Doomed s := by
  obtain ⟨front, hfront, hs⟩ := h
  obtain ⟨after, rfl, hafter⟩ : ∃ after, s = front ++ after ∧ ∀ c ∈ after.head?, c = '/' := by
    rcases hs with rfl | ⟨_, text, rfl⟩
    · exact ⟨[], rfl, by simp⟩
    · exact ⟨_, rfl, by simp⟩
  rintro ⟨front', m, _, hu, hfront', hm, c, u, rfl, hstays⟩
  have hmeet : c ≠ '/' := by
    rintro rfl
    exact absurd (hstays [] List.nil_prefix rfl) (Int.lt_irrefl 0)
  have hclosed : ¬ Pending (parens (.outside, 0) front) := by
    rw [hfront.state]
    exact fun hpending => absurd (hpending rfl) (Int.lt_irrefl 0)
  rcases List.append_eq_append_iff.mp hu with ⟨mid, rfl, rfl⟩ | ⟨mid, rfl, heq⟩
  · cases mid with
    | nil => exact hmeet (hafter c rfl)
    | cons d mid =>
      obtain rfl := hafter d rfl
      exact hclosed (hfront'.slashes front mid rfl)
  · cases mid with
    | nil =>
      rw [List.nil_append] at heq
      exact hmeet (hafter c (heq ▸ rfl))
    | cons d mid =>
      obtain ⟨rfl, rfl⟩ := List.cons.inj heq
      rw [hfront'.parens_append] at hclosed
      exact hclosed ((hstays mid (List.prefix_append mid after)).add hm)

end Eats

end Line

end LineScript
