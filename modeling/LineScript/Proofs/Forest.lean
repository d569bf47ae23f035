import LineScript.Proofs.Changes
import Mathlib.Data.List.Range
import Mathlib.Data.List.Nodup
import Mathlib.Data.List.Perm.Subperm

/-!
# The forest of roots

Whatever changes are made to a store, the roots of its blocks form a forest: the way from root to
root never returns and never leaves the store. That a block does not become part of itself is
checked by going this way, which comes to an end since the roots form a forest before.
-/
namespace LineScript

open Relation

section Paths

variable {R S : Nat → Nat → Prop}

/-- Every path along the relation has fewer steps than the bound. -/
inductive EndsWithin (R : Nat → Nat → Prop) : Nat → Nat → Prop where
  | intro {bound a : Nat} (h : ∀ b, R a b → EndsWithin R bound b) : EndsWithin R (bound + 1) a

/-- A path that goes on is not back at a number that it has passed, so that some are left. -/
theorem visited_of_step {size : Nat} (hsize : ∀ a b, R a b → a < size)
    (hacyclic : ∀ a, ¬ TransGen R a a) {visited : List Nat} {a b : Nat} (hnodup : visited.Nodup)
    (hvisited : ∀ v ∈ visited, v < size ∧ TransGen R v a) (hb : R a b) :
    (a :: visited).Nodup ∧ (∀ v ∈ a :: visited, v < size ∧ TransGen R v b) ∧
      visited.length < size := by
  have hnew : a ∉ visited := fun hmem => hacyclic a (hvisited a hmem).2
  have hnext : ∀ v ∈ a :: visited, v < size ∧ TransGen R v b := by
    intro v hv
    rcases List.mem_cons.mp hv with rfl | hv
    · exact ⟨hsize v b hb, .single hb⟩
    · exact ⟨(hvisited v hv).1, (hvisited v hv).2.tail hb⟩
  have hcons := List.nodup_cons.mpr ⟨hnew, hnodup⟩
  have hsubset : a :: visited ⊆ List.range size :=
    fun v hv => List.mem_range.mpr (hnext v hv).1
  have hlength := (List.subperm_of_subset hcons hsubset).length_le
  rw [List.length_cons, List.length_range] at hlength
  exact ⟨hcons, hnext, hlength⟩

theorem endsWithin_of_visited {size : Nat} (hsize : ∀ a b, R a b → a < size)
    (hacyclic : ∀ a, ¬ TransGen R a a) {left : Nat} {visited : List Nat} {a : Nat}
    (hnodup : visited.Nodup) (hvisited : ∀ v ∈ visited, v < size ∧ TransGen R v a)
    (hleft : size ≤ visited.length + left) : EndsWithin R (left + 1) a := by
  induction left generalizing visited a with
  | zero =>
    refine .intro fun b hb => ?_
    obtain ⟨_, _, hlength⟩ := visited_of_step hsize hacyclic hnodup hvisited hb
    omega
  | succ left ih =>
    refine .intro fun b hb => ?_
    obtain ⟨hcons, hnext, _⟩ := visited_of_step hsize hacyclic hnodup hvisited hb
    refine ih hcons hnext ?_
    rw [List.length_cons]
    omega

theorem endsWithin_of_acyclic {size : Nat} (hsize : ∀ a b, R a b → a < size)
    (hacyclic : ∀ a, ¬ TransGen R a a) (a : Nat) : EndsWithin R (size + 1) a :=
  endsWithin_of_visited hsize hacyclic List.nodup_nil (by simp) (by simp)

/-- The steps of the relation that can be reached from a number. -/
def StepsFrom (R : Nat → Nat → Prop) (start a b : Nat) : Prop :=
  ReflTransGen R start a ∧ R a b

theorem EndsWithin.of_stepsFrom {start bound a : Nat} (h : EndsWithin (StepsFrom R start) bound a)
    (hstart : ReflTransGen R start a) : EndsWithin R bound a := by
  induction h with
  | intro _ ih => exact .intro fun b hab => ih b ⟨hstart, hab⟩ (hstart.tail hab)

theorem endsWithin_of_reachable {size : Nat} (hsize : ∀ a b, R a b → a < size) {start : Nat}
    (hacyclic : ∀ a, ReflTransGen R start a → ¬ TransGen R a a) :
    EndsWithin R (size + 1) start := by
  have hnone (a : Nat) : ¬ TransGen (StepsFrom R start) a a := by
    intro hcycle
    obtain ⟨b, hab, _⟩ := TransGen.head'_iff.mp hcycle
    exact hacyclic a hab.1 (TransGen.mono (fun _ _ hstep => hstep.2) a a hcycle)
  exact (endsWithin_of_acyclic (fun a b hab => hsize a b hab.2) hnone start).of_stepsFrom .refl

theorem EndsWithin.mono {bound bound' a : Nat} (h : EndsWithin R bound a)
    (hle : bound ≤ bound') : EndsWithin R bound' a := by
  induction h generalizing bound' with
  | intro _ ih =>
    cases bound' with
    | zero => cases hle
    | succ bound' => exact .intro fun b hb => ih b hb (Nat.le_of_succ_le_succ hle)

/-- A path along a relation with one pair more is a path without it, or leads to the pair and on
from it. -/
theorem transGen_of_edge {x y : Nat} (hedge : ∀ a b, S a b → R a b ∨ a = x ∧ b = y) {a b : Nat}
    (h : TransGen S a b) : TransGen R a b ∨ ReflTransGen R a x ∧ ReflTransGen R y b := by
  induction h with
  | single hab =>
    rcases hedge _ _ hab with hab | ⟨rfl, rfl⟩
    · exact Or.inl (.single hab)
    · exact Or.inr ⟨.refl, .refl⟩
  | tail _ hbc ih =>
    rcases hedge _ _ hbc with hbc | ⟨rfl, rfl⟩
    · exact ih.imp (fun hab => hab.tail hbc) fun ⟨hax, hyb⟩ => ⟨hax, hyb.tail hbc⟩
    · exact Or.inr ⟨ih.elim TransGen.to_reflTransGen And.left, .refl⟩

theorem acyclic_of_edge {x y : Nat} (hedge : ∀ a b, S a b → R a b ∨ a = x ∧ b = y)
    (hacyclic : ∀ a, ¬ TransGen R a a) (hnot : ¬ ReflTransGen R y x) (a : Nat) :
    ¬ TransGen S a a := by
  intro h
  rcases transGen_of_edge hedge h with h | ⟨hax, hya⟩
  · exact hacyclic a h
  · exact hnot (hya.trans hax)

end Paths

namespace Store

variable (s : Store)

/-- The first block belongs to the second. -/
def Under (b p : BlockId) : Prop :=
  s.rootOf b = some p

/-- The block at a distance on the way from root to root. -/
def climb : Nat → BlockId → Option BlockId
  | 0, b => some b
  | n + 1, b => (s.rootOf b).bind (climb n)

variable {s}

theorem isAncestorWithin_iff {bound : Nat} {b : BlockId} (h : EndsWithin s.Under bound b)
    (ancestor : BlockId) :
    s.isAncestorWithin ancestor bound b = true ↔ ReflTransGen s.Under b ancestor := by
  induction h with
  | @intro bound b hroots ih =>
    rw [isAncestorWithin, ← rootOf, Bool.or_eq_true, beq_iff_eq, ReflTransGen.cases_head_iff]
    apply or_congr Iff.rfl
    cases hroot : s.rootOf b with
    | none => simp [Under, hroot]
    | some root =>
      simp only [Under, hroot, Option.some.injEq, exists_eq_left']
      exact ih root hroot

theorem climb_eq_none {bound : Nat} {b : BlockId} (h : EndsWithin s.Under bound b) :
    s.climb bound b = none := by
  induction h with
  | @intro bound b _ ih =>
    rw [climb]
    cases hroot : s.rootOf b with
    | none => rfl
    | some root => exact ih root hroot

theorem exists_climb_iff {b ancestor : BlockId} :
    (∃ n, s.climb n b = some ancestor) ↔ ReflTransGen s.Under b ancestor := by
  constructor
  · rintro ⟨n, hn⟩
    induction n generalizing b with
    | zero => rw [Option.some.inj hn]
    | succ n ih =>
      obtain ⟨root, hroot, hn⟩ := Option.bind_eq_some_iff.mp hn
      exact .head hroot (ih hn)
  · intro h
    induction h using ReflTransGen.head_induction_on with
    | refl => exact ⟨0, rfl⟩
    | head hroot _ ih =>
      obtain ⟨n, hn⟩ := ih
      exact ⟨n + 1, by rw [climb, hroot, Option.bind_some, hn]⟩

end Store

def Element.inner? : Element → Option BlockId
  | .block child => some child
  | _ => none

theorem Element.child?_of_inner? {e : Element} {c : BlockId} (h : e.inner? = some c) :
    e.child? = some c := by
  cases e with
  | block child => exact h
  | text _ | value _ | method _ | statement _ => cases h

theorem Element.child?_of_isHeader {e : Element} (h : e.isHeader = true) : e.child? = none := by
  rcases Element.eq_of_isHeader h with ⟨_, rfl⟩ | ⟨_, rfl⟩ <;> rfl

/-- The blocks among the elements of a block. -/
def Block.inner (block : Block) : List BlockId :=
  block.elements.filterMap Element.inner?

theorem Block.inner_snoc (block : Block) (element : Element) :
    ({ block with elements := block.elements ++ [element] } : Block).inner =
      block.inner ++ element.inner?.toList := by
  unfold inner
  cases h : element.inner? <;> simp [h]

theorem Block.mem_inner {block : Block} {c : BlockId} :
    c ∈ block.inner ↔ Element.block c ∈ block.elements := by
  rw [inner, List.mem_filterMap]
  constructor
  · rintro ⟨e, he, hc⟩
    cases e with
    | block child => rwa [← Option.some.inj hc]
    | text _ | value _ | method _ | statement _ => cases hc
  · intro he
    exact ⟨_, he, rfl⟩

theorem Block.Fresh.children {block : Block} (h : block.Fresh) : block.children = [] := by
  have helements : block.elements.filterMap Element.child? = [] := by
    refine List.filterMap_eq_nil_iff.mpr fun e he => ?_
    exact Element.child?_of_isHeader (h.elements e he)
  rw [Block.children, h.companion, helements]
  rfl

theorem Block.Fresh.inner {block : Block} (h : block.Fresh) : block.inner = [] := by
  refine List.filterMap_eq_nil_iff.mpr fun e he => ?_
  have hnone := Element.child?_of_isHeader (h.elements e he)
  cases e with
  | block child => cases hnone
  | text _ | value _ | method _ | statement _ => rfl

namespace Store

variable (s : Store)

/-- The blocks among all elements of the store. -/
def inner : List BlockId :=
  s.blocks.toList.flatMap Block.inner

theorem lt_size_of_rootOf {s : Store} {b p : BlockId} (h : s.rootOf b = some p) : b < s.size := by
  obtain ⟨block, hblock, _⟩ := Option.bind_eq_some_iff.mp h
  exact lt_size_of_get? hblock

/-- The element stands in the block. -/
def Has (id : BlockId) (e : Element) : Prop :=
  ∃ block, s.get? id = some block ∧ e ∈ block.elements

variable {s}

/-- The roots form a forest, and the blocks that stand in a block or come with it belong to it. -/
structure Forest (s : Store) : Prop where
  root_lt : ∀ b p : Nat, s.rootOf b = some p → p < s.size
  acyclic : ∀ b : Nat, ¬ TransGen s.Under b b
  inner : ∀ p c, s.Has p (.block c) → s.rootOf c = some p ∧
    ∃ kind, s.kindOf c = some kind ∧ kind.isFile = false
  inner_nodup : ∀ p block, s.get? p = some block → block.inner.Nodup
  companion : ∀ p kind c, s.kindOf p = some kind → kind.companion = some c →
    s.rootOf c = some p
  handler : ∀ p signal c, s.Has p (.statement (.signal signal c)) → ∃ q, s.rootOf c = some q

theorem mem_childrenOf_of_companion {p c : BlockId} {kind : BlockKind}
    (hkind : s.kindOf p = some kind) (hc : kind.companion = some c) : c ∈ s.childrenOf p := by
  obtain ⟨block, hblock, rfl⟩ := Option.map_eq_some_iff.mp hkind
  rw [BlockKind.companion_fixed] at hc
  rw [childrenOf_of_get? hblock]
  exact List.mem_append_left _ (Option.mem_toList.mpr hc)

section Elements

variable {parent child : BlockId} {block changed inner : Block} {element : Element}

theorem has_replace (hblock : s.get? parent = some block)
    (helements : ∀ e ∈ changed.elements, e ∈ block.elements ∨ e = element) {p : BlockId}
    {e : Element} (h : (s.replace parent changed).Has p e) :
    s.Has p e ∨ p = parent ∧ e = element := by
  obtain ⟨found, hfound, he⟩ := h
  rcases get?_replace_iff (lt_size_of_get? hblock) hfound with ⟨rfl, rfl⟩ | ⟨_, hfound⟩
  · exact (helements e he).imp (fun he => ⟨block, hblock, he⟩) fun he => ⟨rfl, he⟩
  · exact Or.inl ⟨found, hfound, he⟩

theorem has_attach (hinner : s.get? child = some inner) (hblock : s.get? parent = some block)
    {p : BlockId} {e : Element} (h : (s.attach child parent inner block element).Has p e) :
    s.Has p e ∨ p = parent ∧ e = element := by
  obtain ⟨found, hfound, he⟩ := h
  rcases get?_attach_cases hinner hblock hfound with ⟨rfl, rfl⟩ | ⟨_, old, hold, _, helements⟩
  · rw [List.mem_append, List.mem_singleton] at he
    exact he.imp (fun he => ⟨block, hblock, he⟩) fun he => ⟨rfl, he⟩
  · exact Or.inl ⟨old, hold, helements ▸ he⟩

theorem has_extend {made : List Block} {fresh : Nat} {p : BlockId} {e : Element}
    (h : (s.extend made fresh).Has p e) : s.Has p e ∨ ∃ block ∈ made, e ∈ block.elements := by
  obtain ⟨found, hfound, he⟩ := h
  rcases get?_extend_cases hfound with hmem | hfound
  · exact Or.inr ⟨found, hmem, he⟩
  · exact Or.inl ⟨found, hfound, he⟩

end Elements

/-- The second store has the blocks of the first, with the same roots where there were any. -/
structure Grows (s t : Store) : Prop where
  size_le : s.size ≤ t.size
  root : ∀ b p, s.rootOf b = some p → t.rootOf b = some p
  kind : ∀ b kind, s.kindOf b = some kind → t.kindOf b = some kind

theorem grows_extend (made : List Block) (fresh : Nat) : s.Grows (s.extend made fresh) where
  size_le := by
    rw [size_extend]
    exact Nat.le_add_right _ _
  root b p h := by
    rw [rootOf_extend_of_lt (lt_size_of_rootOf h), h]
  kind b kind h := by
    obtain ⟨block, hblock, _⟩ := Option.map_eq_some_iff.mp h
    rw [kindOf, get?_extend_of_lt (lt_size_of_get? hblock)]
    exact h

theorem Grows.trans {t u : Store} (h : s.Grows t) (h' : t.Grows u) : s.Grows u where
  size_le := Nat.le_trans h.size_le h'.size_le
  root b p hp := h'.root b p (h.root b p hp)
  kind b kind hb := h'.kind b kind (h.kind b kind hb)

section Links

variable {parent child : BlockId} {block changed inner : Block}

theorem rootOf_replace_same (hblock : s.get? parent = some block)
    (hroot : changed.root = block.root) (b : BlockId) :
    (s.replace parent changed).rootOf b = s.rootOf b := by
  rw [rootOf_replace (lt_size_of_get? hblock)]
  split_ifs with hb
  · rw [hb, hroot, rootOf_of_get? hblock]
  · rfl

theorem grows_replace (hblock : s.get? parent = some block)
    (hkind : changed.kind.fixed = block.kind.fixed) (hroot : changed.root = block.root) :
    s.Grows (s.replace parent changed) where
  size_le := Nat.le_of_eq (s.size_replace _ _).symm
  root b _ hp := (rootOf_replace_same hblock hroot b).trans hp
  kind b _ hb := (kindOf_replace hblock hkind b).trans hb

theorem grows_attach (hinner : s.get? child = some inner) (hblock : s.get? parent = some block)
    (hroot : inner.root = none) (hne : child ≠ parent) (element : Element) :
    s.Grows (s.attach child parent inner block element) where
  size_le := Nat.le_of_eq size_attach.symm
  root b p hp := by
    rw [rootOf_attach hinner hblock hne, if_neg, hp]
    rintro rfl
    rw [rootOf_of_get? hinner, hroot] at hp
    cases hp
  kind b kind hb := (kindOf_attach hinner hblock hne element b).trans hb

end Links

theorem Placed.grows {t : Store} {parent : BlockId} {element : Element}
    (h : s.Placed parent element t) : s.Grows t := by
  cases h with
  | held _ => exact ⟨Nat.le_refl _, fun _ _ h => h, fun _ _ h => h⟩
  | attached _ hinner hblock _ hroot hancestor =>
    exact grows_attach hinner hblock hroot (ne_of_isAncestor hancestor) element
  | installed _ _ hblock _ => exact grows_replace hblock rfl rfl
  | inserted _ hblock hkind hroot _ => exact grows_replace hblock hkind hroot

theorem Step.grows {t : Store} {c : Change} (h : s.Step c t) : s.Grows t := by
  cases h with
  | idle _ fresh => exact ⟨Nat.le_refl _, fun _ _ h => h, fun _ _ h => h⟩
  | made _ _ fresh => exact grows_extend _ fresh
  | attempt _ condition => exact grows_extend _ _
  | added happend => exact (placed_of_append happend).grows

theorem grows_afterAll (s : Store) (changes : List Change) : s.Grows (s.afterAll changes) :=
  afterAll_invariant changes ⟨Nat.le_refl _, fun _ _ h => h, fun _ _ h => h⟩
    fun _ _ _ _ hstep h => h.trans hstep.grows

namespace Forest

variable {t : Store}

/-- A store that has grown has a forest of roots if everything new in it fits in. -/
theorem grows (h : s.Forest) (hgrows : s.Grows t)
    (hroot : ∀ b p : Nat, t.rootOf b = some p → s.rootOf b = some p ∨ p < t.size)
    (hacyclic : ∀ b : Nat, ¬ TransGen t.Under b b)
    (hinner : ∀ p c, t.Has p (.block c) → s.Has p (.block c) ∨ t.rootOf c = some p ∧
      ∃ kind, t.kindOf c = some kind ∧ kind.isFile = false)
    (hnodup : ∀ p block, t.get? p = some block → block.inner.Nodup)
    (hcompanion : ∀ p kind c, t.kindOf p = some kind → kind.companion = some c →
      s.kindOf p = some kind ∨ t.rootOf c = some p)
    (hhandler : ∀ p signal c, t.Has p (.statement (.signal signal c)) →
      s.Has p (.statement (.signal signal c)) ∨ ∃ q, t.rootOf c = some q) : t.Forest where
  root_lt b p hp := by
    rcases hroot b p hp with hp | hp
    · exact Nat.lt_of_lt_of_le (h.root_lt b p hp) hgrows.size_le
    · exact hp
  acyclic := hacyclic
  inner p c hc := by
    rcases hinner p c hc with hc | hc
    · obtain ⟨hroot, kind, hkind, hfile⟩ := h.inner p c hc
      exact ⟨hgrows.root c p hroot, kind, hgrows.kind c kind hkind, hfile⟩
    · exact hc
  inner_nodup := hnodup
  companion p kind c hkind hc := by
    rcases hcompanion p kind c hkind hc with hkind | hroot
    · exact hgrows.root c p (h.companion p kind c hkind hc)
    · exact hroot
  handler p signal c hc := by
    rcases hhandler p signal c hc with hc | hroot
    · obtain ⟨q, hq⟩ := h.handler p signal c hc
      exact ⟨q, hgrows.root c q hq⟩
    · exact hroot

theorem endsWithin (h : s.Forest) (b : Nat) : EndsWithin s.Under (s.size + 1) b :=
  endsWithin_of_acyclic (fun _ _ => lt_size_of_rootOf) h.acyclic b

theorem isAncestor_iff (h : s.Forest) (ancestor b : Nat) :
    s.isAncestor ancestor b = true ↔ ReflTransGen s.Under b ancestor :=
  isAncestorWithin_iff (h.endsWithin b) ancestor

theorem empty : Store.empty.Forest := by
  have hroot (b : Nat) : Store.empty.rootOf b = none := rootOf_of_size_le (Nat.zero_le b)
  have hhas (p : Nat) (e : Element) : ¬ Store.empty.Has p e := by
    rintro ⟨block, hblock, _⟩
    cases hblock
  constructor
  case root_lt =>
    intro b p h
    rw [hroot] at h
    cases h
  case acyclic =>
    intro b h
    obtain ⟨c, hc, _⟩ := TransGen.head'_iff.mp h
    rw [Under, hroot] at hc
    cases hc
  case inner => exact fun p c h => absurd h (hhas p _)
  case inner_nodup =>
    intro p block h
    cases h
  case companion =>
    intro p kind c h
    cases h
  case handler => exact fun p signal c h => absurd h (hhas p _)

theorem extend_fresh (h : s.Forest) {block : Block} (hfresh : block.Fresh) (fresh : Nat) :
    (s.extend [block] fresh).Forest := by
  have hlinks (i : Nat) := s.links_extend_bare block hfresh.root hfresh.children fresh i
  have hunder : (s.extend [block] fresh).Under = s.Under := by
    funext b p
    rw [Under, Under, (hlinks b).2]
  have hhas {p : Nat} {e : Element} (he : (s.extend [block] fresh).Has p e) :
      s.Has p e ∨ e.child? = none := by
    rcases has_extend he with he | ⟨made, hmade, hmem⟩
    · exact Or.inl he
    · obtain rfl := List.mem_singleton.mp hmade
      exact Or.inr (Element.child?_of_isHeader (hfresh.elements e hmem))
  apply h.grows (grows_extend _ _)
  case hroot =>
    intro b p hp
    exact Or.inl ((hlinks b).2 ▸ hp)
  case hacyclic =>
    rw [hunder]
    exact h.acyclic
  case hinner =>
    intro p c hc
    exact (hhas hc).imp_right fun hnone => by cases hnone
  case hnodup =>
    intro p found hfound
    rcases get?_extend_cases hfound with hmade | hfound
    · obtain rfl := List.mem_singleton.mp hmade
      rw [hfresh.inner]
      exact List.nodup_nil
    · exact h.inner_nodup p found hfound
  case hcompanion =>
    intro p kind c hkind hc
    rcases kindOf_extend hkind with hkind | ⟨_, made, hmade, rfl⟩
    · exact Or.inl hkind
    · obtain rfl := List.mem_singleton.mp hmade
      rw [BlockKind.companion_fixed, hfresh.companion] at hc
      cases hc
  case hhandler =>
    intro p signal c hc
    exact (hhas hc).imp_right fun hnone => by cases hnone

/-- A new evaluation brings its handler along, which belongs to it. -/
theorem extend_attempt (h : s.Forest) (condition : Condition) :
    (s.extend [.catching condition (s.size + 1), Block.ofKind (.evaluation s.size)]
      s.fresh).Forest := by
  have hlinks (i : Nat) := s.links_extend_pair
    (rfl : (Block.catching condition (s.size + 1)).root = some (s.size + 1)) rfl
    (rfl : (Block.ofKind (.evaluation s.size)).root = none) rfl s.fresh i
  have hnone : s.rootOf (s.size + 1) = none := rootOf_of_size_le (Nat.le_succ _)
  have hhas {p : Nat} {e : Element} (he : (s.extend
      [.catching condition (s.size + 1), Block.ofKind (.evaluation s.size)] s.fresh).Has p e) :
      s.Has p e ∨ e.child? = none := by
    rcases has_extend he with he | ⟨made, hmade, hmem⟩
    · exact Or.inl he
    · rcases List.mem_pair.mp hmade with rfl | rfl
      · rw [List.mem_singleton.mp hmem]
        exact Or.inr rfl
      · cases hmem
  apply h.grows (grows_extend _ _)
  case hroot =>
    intro b p hp
    rw [(hlinks b).2] at hp
    split_ifs at hp with hb
    · rw [← Option.some.inj hp, size_extend]
      exact Or.inr (Nat.lt_succ_self _)
    · exact Or.inl hp
  case hacyclic =>
    refine acyclic_of_edge (fun b p hp => ?_) h.acyclic (x := s.size) (y := s.size + 1) ?_
    · rw [Under, (hlinks b).2] at hp
      split_ifs at hp with hb
      · exact Or.inr ⟨hb, (Option.some.inj hp).symm⟩
      · exact Or.inl hp
    · intro hpath
      rcases hpath.cases_head with heq | ⟨root, hroot, _⟩
      · omega
      · rw [Under, hnone] at hroot
        cases hroot
  case hinner =>
    intro p c hc
    exact (hhas hc).imp_right fun hnone => by cases hnone
  case hnodup =>
    intro p found hfound
    rcases get?_extend_cases hfound with hmade | hfound
    · rcases List.mem_pair.mp hmade with rfl | rfl <;> exact List.nodup_nil
    · exact h.inner_nodup p found hfound
  case hcompanion =>
    intro p kind c hkind hc
    by_cases hp : p < s.size
    · rw [kindOf, get?_extend_of_lt hp] at hkind
      exact Or.inl hkind
    · have hmem := mem_childrenOf_of_companion hkind hc
      rw [(hlinks p).1] at hmem
      split_ifs at hmem with heq
      · rw [heq, (hlinks c).2, if_pos (List.mem_singleton.mp hmem)]
        exact Or.inr rfl
      · rw [childrenOf_of_size_le (Nat.le_of_not_lt hp)] at hmem
        cases hmem
  case hhandler =>
    intro p signal c hc
    exact (hhas hc).imp_right fun hnone => by cases hnone

section Placing

variable {parent child : BlockId} {block changed inner : Block} {element : Element}

/-- An element that is no block changes no links. A handler has to belong to a block already. -/
theorem replace (h : s.Forest) (hblock : s.get? parent = some block)
    (hkind : changed.kind.fixed = block.kind.fixed) (hroot : changed.root = block.root)
    (helements : changed.elements = block.elements ++ [element] ∨
      changed.elements = element :: block.elements) (hinner : element.inner? = none)
    (hhandler : ∀ signal c, element = .statement (.signal signal c) → ∃ q, s.rootOf c = some q) :
    (s.replace parent changed).Forest := by
  have hroots (b : Nat) := rootOf_replace_same hblock hroot b
  have hkinds := kindOf_replace hblock hkind
  have hunder : (s.replace parent changed).Under = s.Under := by
    funext b p
    rw [Under, Under, hroots]
  have hmem : ∀ e ∈ changed.elements, e ∈ block.elements ∨ e = element := by
    intro e he
    rcases helements with helements | helements <;> rw [helements] at he
    · rwa [List.mem_append, List.mem_singleton] at he
    · exact (List.mem_cons.mp he).symm
  have hsame : changed.inner = block.inner := by
    unfold Block.inner
    rcases helements with helements | helements <;> simp [helements, hinner]
  apply h.grows (grows_replace hblock hkind hroot)
  case hroot =>
    intro b p hp
    exact Or.inl ((hroots b).symm.trans hp)
  case hacyclic =>
    rw [hunder]
    exact h.acyclic
  case hinner =>
    intro p c hc
    refine (has_replace hblock hmem hc).imp_right fun ⟨_, heq⟩ => ?_
    rw [← heq] at hinner
    cases hinner
  case hnodup =>
    intro p found hfound
    rcases get?_replace_cases hfound with rfl | hfound
    · rw [hsame]
      exact h.inner_nodup parent block hblock
    · exact h.inner_nodup p found hfound
  case hcompanion =>
    intro p kind c hp _
    exact Or.inl ((hkinds p).symm.trans hp)
  case hhandler =>
    intro p signal c hc
    refine (has_replace hblock hmem hc).imp_right fun ⟨_, heq⟩ => ?_
    obtain ⟨q, hq⟩ := hhandler signal c heq.symm
    exact ⟨q, (hroots c).trans hq⟩

/-- A block gets its root from a block that is not inside it. -/
theorem attach (h : s.Forest) (hchild : element.child? = some child)
    (hinner : s.get? child = some inner) (hblock : s.get? parent = some block)
    (hfile : inner.kind.isFile = false) (hroot : inner.root = none)
    (hancestor : s.isAncestor child parent = false) :
    (s.attach child parent inner block element).Forest := by
  have hne := ne_of_isAncestor hancestor
  have hroots (b : Nat) := rootOf_attach hinner hblock hne element b
  have hkinds (b : Nat) := kindOf_attach hinner hblock hne element b
  have hloose : s.rootOf child = none := (rootOf_of_get? hinner).trans hroot
  have hchildRoot : (s.attach child parent inner block element).rootOf child = some parent := by
    rw [hroots, if_pos rfl]
  apply h.grows (grows_attach hinner hblock hroot hne element)
  case hroot =>
    intro b p hp
    rw [hroots] at hp
    split_ifs at hp
    · rw [← Option.some.inj hp, size_attach]
      exact Or.inr (lt_size_of_get? hblock)
    · exact Or.inl hp
  case hacyclic =>
    refine acyclic_of_edge (fun b p hp => ?_) h.acyclic (x := child) (y := parent) ?_
    · rw [Under, hroots] at hp
      split_ifs at hp with hb
      · exact Or.inr ⟨hb, (Option.some.inj hp).symm⟩
      · exact Or.inl hp
    · rw [← h.isAncestor_iff, hancestor]
      exact Bool.false_ne_true
  case hinner =>
    intro p c hc
    refine (has_attach hinner hblock hc).imp_right ?_
    rintro ⟨rfl, rfl⟩
    obtain rfl := Option.some.inj hchild
    refine ⟨hchildRoot, inner.kind.fixed, ?_, ?_⟩
    · rw [hkinds, kindOf_of_get? hinner]
    · rw [BlockKind.isFile_fixed, hfile]
  case hnodup =>
    intro p found hfound
    rcases get?_attach_cases hinner hblock hfound with ⟨_, rfl⟩ | ⟨_, old, hold, _, helements⟩
    · have hbefore := h.inner_nodup parent block hblock
      rw [Block.inner_snoc]
      cases hcase : element.inner? with
      | none => rwa [Option.toList_none, List.append_nil]
      | some c =>
        obtain rfl := Option.some.inj (hchild.symm.trans (Element.child?_of_inner? hcase))
        rw [Option.toList_some, ← List.concat_eq_append]
        refine hbefore.concat fun hmem => ?_
        have hheld := (h.inner parent child ⟨block, hblock, Block.mem_inner.mp hmem⟩).1
        rw [hloose] at hheld
        cases hheld
    · unfold Block.inner
      rw [helements]
      exact h.inner_nodup p old hold
  case hcompanion =>
    intro p kind c hp _
    exact Or.inl ((hkinds p).symm.trans hp)
  case hhandler =>
    intro p signal c hc
    refine (has_attach hinner hblock hc).imp_right ?_
    rintro ⟨_, rfl⟩
    obtain rfl := Option.some.inj hchild
    exact ⟨parent, hchildRoot⟩

end Placing

theorem placed (h : s.Forest) {parent : BlockId} {element : Element}
    (hplaced : s.Placed parent element t) : t.Forest := by
  cases hplaced with
  | held _ => exact h
  | attached hchild hinner hblock hfile hroot hancestor =>
    exact h.attach hchild hinner hblock hfile hroot hancestor
  | @installed signal routine root handler block helement hhandler hblock hroot =>
    subst helement
    refine h.replace hblock rfl rfl (Or.inl rfl) rfl ?_
    rintro _ _ ⟨rfl, rfl⟩
    exact ⟨root, (rootOf_of_get? hhandler).trans hroot⟩
  | @inserted block changed hchild hblock hkind hroot helements =>
    refine h.replace hblock hkind hroot helements ?_ ?_
    · cases element with
      | block _ => cases hchild
      | text _ | value _ | method _ | statement _ => rfl
    · rintro signal c rfl
      cases hchild

theorem step (h : s.Forest) {c : Change} (hstep : s.Step c t) : t.Forest := by
  cases hstep with
  | idle _ fresh => exact ⟨h.root_lt, h.acyclic, h.inner, h.inner_nodup, h.companion, h.handler⟩
  | made _ hfresh fresh => exact h.extend_fresh hfresh fresh
  | attempt _ condition => exact h.extend_attempt condition
  | added happend => exact h.placed (placed_of_append happend)

theorem afterAll (h : s.Forest) (changes : List Change) : (s.afterAll changes).Forest :=
  afterAll_invariant changes h fun _ _ _ _ hstep h => h.step hstep

end Forest

/-- The store that changes lead to from the empty one. -/
def ofChanges (changes : List Change) : Store :=
  Store.empty.afterAll changes

theorem ofChanges_append (changes more : List Change) :
    ofChanges (changes ++ more) = (ofChanges changes).afterAll more :=
  List.foldl_append

theorem forest_ofChanges (changes : List Change) : (ofChanges changes).Forest :=
  Forest.empty.afterAll changes

/-- No block stands twice in the store, since it would belong to both places. -/
theorem Forest.inner_once (h : s.Forest) : s.inner.Nodup := by
  refine List.nodup_flatMap.mpr ⟨?_, ?_⟩
  · intro block hblock
    obtain ⟨p, hp⟩ := List.getElem?_of_mem hblock
    exact h.inner_nodup p block (by rwa [Array.getElem?_toList] at hp)
  · rw [List.pairwise_iff_getElem]
    intro i j hi hj hlt c hci hcj
    have hroot {k : Nat} (hk : k < s.blocks.toList.length)
        (hc : c ∈ (s.blocks.toList[k]).inner) : s.rootOf c = some k := by
      refine (h.inner k c ⟨_, ?_, Block.mem_inner.mp hc⟩).1
      rw [get?, ← Array.getElem?_toList, List.getElem?_eq_getElem hk]
    have heq := (hroot hi hci).symm.trans (hroot hj hcj)
    exact Nat.ne_of_lt hlt (Option.some.inj heq)

end Store

/-- Whatever changes have been made to a store, the roots of its blocks form a forest. The way from
root to root stays inside the store and ends after at most as many steps as there are blocks, so
that looking for an ancestor on it comes to an end by itself: a deeper bound changes nothing. A root
stays the same from when it is set. A block that stands in another belongs to it, is no file, and
stands nowhere else. -/
theorem roots_form_forest (changes more : List Change) :
    (∀ b p, (Store.ofChanges changes).rootOf b = some p →
      b < (Store.ofChanges changes).size ∧ p < (Store.ofChanges changes).size) ∧
    (∀ b, (Store.ofChanges changes).climb ((Store.ofChanges changes).size + 1) b = none) ∧
    (∀ a b, ((Store.ofChanges changes).isAncestor a b = true ↔
        ∃ n, (Store.ofChanges changes).climb n b = some a) ∧
      ∀ bound, (Store.ofChanges changes).size < bound →
        (Store.ofChanges changes).isAncestorWithin a bound b =
          (Store.ofChanges changes).isAncestor a b) ∧
    (∀ b p, (Store.ofChanges changes).rootOf b = some p →
      (Store.ofChanges (changes ++ more)).rootOf b = some p) ∧
    (∀ p block c, (Store.ofChanges changes).get? p = some block →
      Element.block c ∈ block.elements →
      (Store.ofChanges changes).rootOf c = some p ∧
        ∃ inner, (Store.ofChanges changes).get? c = some inner ∧ inner.kind.isFile = false) ∧
    (Store.ofChanges changes).inner.Nodup := by
  have hforest := Store.forest_ofChanges changes
  refine ⟨fun b p hp => ⟨Store.lt_size_of_rootOf hp, hforest.root_lt b p hp⟩,
    fun b => Store.climb_eq_none (hforest.endsWithin b), ?_, ?_, ?_, hforest.inner_once⟩
  · intro a b
    refine ⟨(hforest.isAncestor_iff a b).trans Store.exists_climb_iff.symm, fun bound hbound => ?_⟩
    have hends := (hforest.endsWithin b).mono hbound
    rw [Bool.eq_iff_iff, Store.isAncestorWithin_iff hends, hforest.isAncestor_iff]
  · intro b p hp
    rw [Store.ofChanges_append]
    exact (Store.grows_afterAll _ more).root b p hp
  · intro p block c hblock hc
    obtain ⟨hroot, kind, hkind, hfile⟩ := hforest.inner p c ⟨block, hblock, hc⟩
    obtain ⟨inner, hinner, rfl⟩ := Option.map_eq_some_iff.mp hkind
    exact ⟨hroot, inner, hinner, by rwa [BlockKind.isFile_fixed] at hfile⟩

/-- A handler of an evaluation inside a handler of a signal inside a block of a file. -/
def nestedChanges : List Change :=
  [.newFile "t" false [], .newPlain, .newRoutine (some "h") [] .shift none, .newEvaluation,
    .append 0 (.block 1), .append 1 (.statement (.signal .int 2)), .append 0 (.block 2),
    .append 2 (.block 4), .append 3 (.block 1), .append 9 (.block 0)]

theorem roots_form_forest_nested :
    (Store.ofChanges nestedChanges).rootOf 3 = some 4 ∧
      (Store.ofChanges nestedChanges).climb 4 3 = some 0 ∧
      (Store.ofChanges nestedChanges).isAncestor 0 3 = true ∧
      (Store.ofChanges nestedChanges).isAncestorWithin 0 100 3 = true ∧
      (Store.ofChanges (nestedChanges ++ [.append 4 (.block 3), .append 0 (.block 3)])).rootOf 3 =
        some 4 := by
  have hroot : (Store.ofChanges nestedChanges).rootOf 3 = some 4 := by decide +kernel
  have hclimb : (Store.ofChanges nestedChanges).climb 4 3 = some 0 := by decide +kernel
  have hsize : (Store.ofChanges nestedChanges).size = 5 := by decide +kernel
  obtain ⟨_, _, hancestor, hkept, _⟩ :=
    roots_form_forest nestedChanges [.append 4 (.block 3), .append 0 (.block 3)]
  have hfound := (hancestor 0 3).1.mpr ⟨4, hclimb⟩
  refine ⟨hroot, hclimb, hfound, ?_, hkept 3 4 hroot⟩
  rw [(hancestor 0 3).2 100 (by rw [hsize]; decide), hfound]

end LineScript
