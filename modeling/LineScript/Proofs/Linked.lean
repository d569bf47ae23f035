import LineScript.Proofs.Links

/-!
# Linked scopes

`Scopes.Linked` says how the blocks that are held and the pointers back fit together while scopes
are open: the blocks of the open scopes have no root yet, and every other block is held once, by
its root. The moves of a line keep this up. Once all scopes but that of the file are closed, every
block can be reached from the file.
-/
namespace LineScript

def Store.Holds (s : Store) (parent child : BlockId) : Prop :=
  child ∈ s.childrenOf parent

namespace Scopes

/-- How the blocks belong together while scopes are open. -/
structure Linked (s : Scopes) : Prop where
  file : s.file = 0
  files : ∀ (b : Nat) (kind : BlockKind), s.store.kindOf b = some kind →
    (kind.isFile = true ↔ b = 0)
  outermost : s.openBlocks.getLast? = some 0
  descending : s.openBlocks.Pairwise (· > ·)
  openBlocks_lt : ∀ b ∈ s.openBlocks, b < s.store.size
  /-- A block is held once by its root and by no other block. -/
  held : ∀ p c : Nat,
    (s.store.childrenOf p).count c = if s.store.rootOf c = some p then 1 else 0
  rootless : ∀ b : Nat, b < s.store.size → (s.store.rootOf b = none ↔ b ∈ s.openBlocks)
  /-- A block is made after its root, but for the handler of an evaluation, which holds nothing. -/
  downward : ∀ c p : Nat, s.store.rootOf c = some p →
    p < c ∨ p = c + 1 ∧ ∀ d, s.store.rootOf d ≠ some c

theorem routineBlock_children (name : Option String) (parameters : List BoundParameter)
    (mode : BindingMode) (declared : Option Kind) :
    (routineBlock name parameters mode declared).children = [] := by
  unfold Block.children routineBlock
  cases parameters <;> rfl

theorem fileBlock_children (name : String) (isModule : Bool) (deps : List Dependency) :
    (fileBlock name isModule deps).children = [] := by
  refine List.filterMap_eq_nil_iff.mpr fun e he => ?_
  rcases mem_fileBlock he with ⟨d, rfl⟩ | rfl <;> rfl

theorem child?_mergedElement (scope : Scope) :
    (Session.mergedElement scope).child? = some scope.block := by
  unfold Session.mergedElement
  cases scope.merge <;> rfl

theorem Opening.made_cases {s : Scopes} {c : Construct} {o : Opened} (h : s.Opening c o) :
    (c.isAttempt = false ∧ ∃ block, o.made = [block] ∧ block.root = none ∧ block.children = []) ∨
      (c.isAttempt = true ∧ ∃ handler evaluation, o.made = [handler, evaluation] ∧
        handler.root = some (s.store.size + 1) ∧ handler.children = [] ∧
        evaluation.root = none ∧ evaluation.children = [s.store.size]) := by
  cases h with
  | plain => exact Or.inl ⟨rfl, _, rfl, rfl, rfl⟩
  | condition _ _ _ => exact Or.inl ⟨rfl, _, rfl, rfl, rfl⟩
  | mapLoop _ _ _ => exact Or.inl ⟨rfl, _, rfl, rfl, rfl⟩
  | arrayLoop _ _ _ _ _ _ _ => exact Or.inl ⟨rfl, _, rfl, rfl, rfl⟩
  | attempt _ => exact Or.inr ⟨rfl, _, _, rfl, rfl, rfl, rfl, rfl⟩
  | routine _ _ => exact Or.inl ⟨rfl, _, rfl, rfl, routineBlock_children _ _ _ _⟩
  | signal _ => exact Or.inl ⟨rfl, _, rfl, rfl, routineBlock_children _ _ _ _⟩

theorem Opening.made_length_pos {s : Scopes} {c : Construct} {o : Opened} (h : s.Opening c o) :
    1 ≤ o.made.length := by
  rcases h.made_cases with ⟨_, block, hmade, _⟩ | ⟨_, first, second, hmade, _⟩ <;> simp [hmade]

theorem Opening.made_not_file {s : Scopes} {c : Construct} {o : Opened} (h : s.Opening c o) :
    ∀ block ∈ o.made, block.kind.isFile = false := by
  cases h <;> simp [Block.ofKind, routineBlock, BlockKind.isFile]

namespace Linked

variable {s t : Scopes}

theorem sameLinks (h : s.Linked) (hsame : s.SameLinks t) : t.Linked where
  file := hsame.file.trans h.file
  files b kind hkind := h.files b kind (hsame.kind b ▸ hkind)
  outermost := by rw [hsame.openBlocks, h.outermost]
  descending := by rw [hsame.openBlocks]; exact h.descending
  openBlocks_lt := by rw [hsame.openBlocks, hsame.size]; exact h.openBlocks_lt
  held p c := by rw [hsame.children, hsame.root, h.held]
  rootless b hb := by
    rw [hsame.root, hsame.openBlocks]
    exact h.rootless b (hsame.size ▸ hb)
  downward c p hroot := by
    rw [hsame.root] at hroot
    simp only [hsame.root]
    exact h.downward c p hroot

theorem rootOf_ne_of_size_le (h : s.Linked) {p : Nat} (hp : s.store.size ≤ p) (c : Nat) :
    s.store.rootOf c ≠ some p := by
  intro hroot
  have hheld := h.held p c
  rw [Store.childrenOf_of_size_le hp, if_pos hroot] at hheld
  cases hheld

theorem start (name : String) (isModule : Bool) (deps : List Dependency) :
    (Scopes.start name isModule deps).Linked := by
  have hfile := fileBlock_children name isModule deps
  have hlinks (i : Nat) : (Scopes.start name isModule deps).store.childrenOf i = [] ∧
      (Scopes.start name isModule deps).store.rootOf i = none := by
    have hbare := Store.empty.links_extend_bare (fileBlock name isModule deps) rfl hfile 0 i
    have hempty : Store.empty.size ≤ i := Nat.zero_le i
    rwa [Store.childrenOf_of_size_le hempty, Store.rootOf_of_size_le hempty] at hbare
  constructor
  case file => rfl
  case files =>
    intro b kind hkind
    obtain ⟨block, hblock, rfl⟩ := Option.map_eq_some_iff.mp hkind
    obtain ⟨rfl, rfl⟩ := get?_start hblock
    exact iff_of_true rfl rfl
  case outermost => rfl
  case descending => exact List.pairwise_singleton _ _
  case openBlocks_lt =>
    intro b hb
    obtain rfl := List.mem_singleton.mp hb
    exact Nat.zero_lt_one
  case held =>
    intro p c
    rw [(hlinks p).1, (hlinks c).2]
    rfl
  case rootless =>
    intro b hb
    have hzero : b = 0 := Nat.lt_one_iff.mp hb
    rw [hzero]
    exact iff_of_true (hlinks 0).2 (List.mem_singleton.mpr rfl)
  case downward =>
    intro c p hroot
    rw [(hlinks c).2] at hroot
    cases hroot

theorem outer_lt_current (h : s.Linked) {scope : Scope} (hscope : scope ∈ s.outer) :
    scope.block < s.current.block :=
  List.rel_of_pairwise_cons h.descending (List.mem_map_of_mem hscope)

theorem zero_lt_size (h : s.Linked) : 0 < s.store.size :=
  h.openBlocks_lt 0 (List.mem_of_getLast? h.outermost)

theorem files_opened (h : s.Linked) {c : Construct} {o : Opened} (hopening : s.Opening c o)
    (log : List LogEntry) (b : Nat) (kind : BlockKind)
    (hkind : (s.opened o log).store.kindOf b = some kind) : kind.isFile = true ↔ b = 0 := by
  rcases Store.kindOf_extend hkind with hkind | ⟨hle, block, hmem, rfl⟩
  · exact h.files b kind hkind
  · have hpositive := h.zero_lt_size
    rw [block.kind.isFile_fixed, hopening.made_not_file block hmem]
    exact iff_of_false Bool.false_ne_true (by omega)

/-- Opening a scope keeps all links if it keeps those among the blocks. -/
theorem opened_of_links (h : s.Linked) {c : Construct} {o : Opened} (hopening : s.Opening c o)
    (log : List LogEntry)
    (hheld : ∀ p c : Nat, ((s.opened o log).store.childrenOf p).count c =
      if (s.opened o log).store.rootOf c = some p then 1 else 0)
    (hrootless : ∀ b : Nat, b < (s.opened o log).store.size →
      ((s.opened o log).store.rootOf b = none ↔
        b = s.store.size + o.made.length - 1 ∨ b ∈ s.openBlocks))
    (hdownward : ∀ c p : Nat, (s.opened o log).store.rootOf c = some p →
      p < c ∨ p = c + 1 ∧ ∀ d, (s.opened o log).store.rootOf d ≠ some c) :
    (s.opened o log).Linked := by
  have hopen : (s.opened o log).openBlocks =
      (s.store.size + o.made.length - 1) :: s.openBlocks := rfl
  have hsize : (s.opened o log).store.size = s.store.size + o.made.length := Store.size_extend _ _ _
  have hlength := hopening.made_length_pos
  have hlast (b : Nat) (hb : b < s.store.size) : b < s.store.size + o.made.length - 1 := by
    omega
  have hnew : s.store.size + o.made.length - 1 < s.store.size + o.made.length := by omega
  constructor
  case file => exact h.file
  case files => exact h.files_opened hopening log
  case outermost =>
    rw [hopen, List.getLast?_cons, h.outermost]
    rfl
  case descending =>
    rw [hopen, List.pairwise_cons]
    exact ⟨fun b hb => hlast b (h.openBlocks_lt b hb), h.descending⟩
  case openBlocks_lt =>
    intro b hb
    rw [hopen, List.mem_cons] at hb
    rw [hsize]
    rcases hb with rfl | hb
    · exact hnew
    · exact Nat.lt_add_right _ (h.openBlocks_lt b hb)
  case held => exact hheld
  case rootless =>
    intro b hb
    rw [hopen, List.mem_cons]
    exact hrootless b hb
  case downward => exact hdownward

theorem opened_bare (h : s.Linked) {c : Construct} {o : Opened} (hopening : s.Opening c o)
    {block : Block} (hmade : o.made = [block]) (hroot : block.root = none)
    (hchildren : block.children = []) (log : List LogEntry) : (s.opened o log).Linked := by
  have hstore : (s.opened o log).store = s.store.extend [block] o.fresh := by
    rw [Scopes.opened, hmade]
  have hlinks (i : Nat) := s.store.links_extend_bare block hroot hchildren o.fresh i
  apply h.opened_of_links hopening log
  case hheld =>
    intro p c
    rw [hstore, (hlinks p).1, (hlinks c).2, h.held]
  case hrootless =>
    intro b hb
    rw [hstore, Store.size_extend, List.length_singleton] at hb
    rw [hstore, (hlinks b).2, hmade, List.length_singleton, Nat.add_sub_cancel]
    rcases Nat.lt_succ_iff_lt_or_eq.mp hb with hlt | rfl
    · rw [h.rootless b hlt, or_iff_right (Nat.ne_of_lt hlt)]
    · exact iff_of_true (Store.rootOf_of_size_le (Nat.le_refl _)) (Or.inl rfl)
  case hdownward =>
    intro c p hc
    simp only [hstore, (hlinks _).2] at hc ⊢
    exact h.downward c p hc

/-- A block that gets a root without one of its own comes between no other block and its root. -/
theorem downward_of_root (h : s.Linked) {x q c p : Nat} (hq : s.store.rootOf q = none)
    (hc : s.store.rootOf c = some p) :
    p < c ∨ p = c + 1 ∧ ∀ d, (if d = x then some q else s.store.rootOf d) ≠ some c := by
  refine (h.downward c p hc).imp_right ?_
  rintro ⟨hp, hnot⟩
  refine ⟨hp, fun d => ?_⟩
  split_ifs with hd
  · rintro ⟨rfl⟩
    rw [hq] at hc
    cases hc
  · exact hnot d

theorem opened_pair (h : s.Linked) {c : Construct} {o : Opened} (hopening : s.Opening c o)
    {first second : Block} (hmade : o.made = [first, second])
    (hfirst : first.root = some (s.store.size + 1)) (hbare : first.children = [])
    (hsecond : second.root = none) (hholds : second.children = [s.store.size])
    (log : List LogEntry) : (s.opened o log).Linked := by
  have hstore : (s.opened o log).store = s.store.extend [first, second] o.fresh := by
    rw [Scopes.opened, hmade]
  have hlinks (i : Nat) := s.store.links_extend_pair hfirst hbare hsecond hholds o.fresh i
  have hnone := Store.rootOf_of_size_le (Nat.le_refl s.store.size)
  have hnone' := Store.rootOf_of_size_le (Nat.le_succ s.store.size)
  apply h.opened_of_links hopening log
  case hheld =>
    intro p c
    have hpast := h.rootOf_ne_of_size_le (Nat.le_succ s.store.size) c
    rw [hstore, (hlinks p).1, (hlinks c).2]
    by_cases hp : p = s.store.size + 1
    · by_cases hc : c = s.store.size
      · simp [hp, hc]
      · simp [hp, hc, Ne.symm hc, hpast]
    · rw [if_neg hp, h.held]
      by_cases hc : c = s.store.size
      · simp [hc, hnone, Ne.symm hp]
      · rw [if_neg hc]
  case hrootless =>
    intro b hb
    have hlast : s.store.size + [first, second].length - 1 = s.store.size + 1 := rfl
    rw [hstore, Store.size_extend] at hb
    rw [hstore, (hlinks b).2, hmade, hlast]
    by_cases hlt : b < s.store.size
    · rw [if_neg (Nat.ne_of_lt hlt), h.rootless b hlt, or_iff_right (by omega)]
    by_cases heq : b = s.store.size
    · rw [if_pos heq]
      refine iff_of_false (by simp) ?_
      rintro (hb' | hb')
      · omega
      · exact hlt (h.openBlocks_lt b hb')
    · have hsecond' : b = s.store.size + 1 := by
        rw [List.length_cons, List.length_singleton] at hb
        omega
      rw [if_neg heq, hsecond']
      exact iff_of_true hnone' (Or.inl rfl)
  case hdownward =>
    intro c p hc
    simp only [hstore, (hlinks _).2] at hc ⊢
    by_cases heq : c = s.store.size
    · rw [if_pos heq] at hc
      obtain rfl := Option.some.inj hc
      refine Or.inr ⟨by rw [heq], fun d => ?_⟩
      split_ifs with hd
      · simp [heq]
      · exact h.rootOf_ne_of_size_le (Nat.le_of_eq heq.symm) d
    · rw [if_neg heq] at hc
      exact h.downward_of_root hnone' hc

theorem opened (h : s.Linked) {c : Construct} {o : Opened} (hopening : s.Opening c o)
    (log : List LogEntry) : (s.opened o log).Linked := by
  rcases hopening.made_cases with ⟨_, block, hmade, hroot, hchildren⟩ |
    ⟨_, first, second, hmade, hfirst, hbare, hsecond, hholds⟩
  · exact h.opened_bare hopening hmade hroot hchildren log
  · exact h.opened_pair hopening hmade hfirst hbare hsecond hholds log

/-- Closing a scope attaches its block to the block around it. -/
theorem attach_of_closes (h : s.Linked) (hcloses : s.Closes t) :
    ∃ parent outer block inner log, s.outer = parent :: outer ∧
      s.current.block > parent.block ∧
      s.store.get? parent.block = some block ∧ block.closed = false ∧
      s.store.get? s.current.block = some inner ∧ inner.root = none ∧
      (∀ signal, s.current.merge = .handler signal → inner.kind.isRoutine = true) ∧
      t = { s with
        store := s.store.attach s.current.block parent.block inner block
          (Session.mergedElement s.current)
        current := parent
        outer := outer
        log := log } := by
  obtain ⟨log, houter, happend⟩ := hcloses
  rename_i parent outer store
  have hdescending := h.descending
  have hcurrent : s.current.block ∈ s.openBlocks := List.mem_cons_self
  have hlt := h.openBlocks_lt _ hcurrent
  have hroot := (h.rootless _ hlt).mpr hcurrent
  rw [openBlocks, all, houter, List.map_cons, List.map_cons, List.pairwise_cons] at hdescending
  have hgt : s.current.block > parent.block := hdescending.1 _ List.mem_cons_self
  obtain ⟨inner, hinner⟩ := Store.exists_get? hlt
  rw [Store.rootOf_of_get? hinner] at hroot
  cases hmerge : s.current.merge with
  | block =>
    have helement : Session.mergedElement s.current = .block s.current.block := by
      rw [Session.mergedElement, hmerge]
    rw [helement] at happend ⊢
    obtain ⟨block, hblock, hopen, hcases⟩ := Edit.append_block_ok happend
    rcases hcases with ⟨heq, _⟩ | ⟨inner', hinner', _, _, ⟨hroot', _⟩ | ⟨_, _, rfl⟩⟩
    · exact absurd heq (Nat.ne_of_gt hgt)
    · obtain rfl := Option.some.inj (hinner.symm.trans hinner')
      rw [hroot] at hroot'
      cases hroot'
    · obtain rfl := Option.some.inj (hinner.symm.trans hinner')
      exact ⟨parent, outer, block, inner, log, houter, hgt, hblock, hopen, hinner, hroot,
        by simp, rfl⟩
  | handler signal =>
    have helement : Session.mergedElement s.current =
        .statement (.signal signal s.current.block) := by
      rw [Session.mergedElement, hmerge]
    rw [helement] at happend ⊢
    obtain ⟨block, inner', hblock, hopen, hinner', hroutine, _, rfl⟩ :=
      Edit.append_signal_ok happend
    obtain rfl := Option.some.inj (hinner.symm.trans hinner')
    refine ⟨parent, outer, block, inner, log, houter, hgt, hblock, hopen, hinner, hroot,
      fun _ _ => hroutine, ?_⟩
    have hparent : (s.store.replace s.current.block
        { inner with root := some parent.block }).get? parent.block = some block := by
      rw [Store.get?_replace_of_ne _ (Nat.ne_of_lt hgt), hblock]
    rw [hroot, Option.isNone_none, if_pos rfl, Store.setRoot, Store.update_eq_replace hinner,
      Store.push, Store.update_eq_replace hparent]
    rfl

theorem closes (h : s.Linked) (hcloses : s.Closes t) : t.Linked := by
  obtain ⟨parent, outer, block, inner, log, houter, hgt, hblock, _, hinner, hroot, _, rfl⟩ :=
    h.attach_of_closes hcloses
  have hne := Nat.ne_of_gt hgt
  have hchildren (i : Nat) := Store.childrenOf_attach hinner hblock
    (child?_mergedElement s.current) i
  have hroots (i : Nat) := Store.rootOf_attach hinner hblock hne (Session.mergedElement s.current) i
  have hopen : s.openBlocks = s.current.block :: parent.block :: outer.map Scope.block := by
    rw [openBlocks, all, houter, List.map_cons, List.map_cons]
  have hnone : s.store.rootOf s.current.block = none := by rw [Store.rootOf_of_get? hinner, hroot]
  have hparent : s.store.rootOf parent.block = none := by
    rw [h.rootless _ (Store.lt_size_of_get? hblock), hopen]
    exact List.mem_cons_of_mem _ List.mem_cons_self
  obtain ⟨hfresh, hdescending⟩ := List.pairwise_cons.mp (hopen ▸ h.descending)
  constructor
  case file => exact h.file
  case files =>
    intro b kind hkind
    rw [Store.kindOf_attach hinner hblock hne] at hkind
    exact h.files b kind hkind
  case outermost =>
    have houtermost := h.outermost
    rwa [hopen, List.getLast?_cons_cons] at houtermost
  case descending => exact hdescending
  case openBlocks_lt =>
    intro b hb
    rw [Store.size_attach]
    apply h.openBlocks_lt
    rw [hopen]
    exact List.mem_cons_of_mem _ hb
  case held =>
    intro p c
    rw [hchildren, hroots]
    by_cases hc : c = s.current.block
    · have hcount := h.held p s.current.block
      rw [hnone, if_neg (by simp)] at hcount
      by_cases hp : p = parent.block
      · rw [if_pos hp, List.count_append, hc, hcount, if_pos rfl, if_pos (by rw [hp])]
        simp
      · rw [if_neg hp, hc, hcount, if_pos rfl, if_neg (by simp [Ne.symm hp])]
    · rw [if_neg hc, ← h.held]
      split_ifs with hp
      · simp [Ne.symm hc]
      · rfl
  case rootless =>
    intro b hb
    rw [Store.size_attach] at hb
    rw [hroots]
    by_cases hb' : b = s.current.block
    · rw [if_pos hb', hb']
      refine iff_of_false (by simp) ?_
      intro hmem
      exact Nat.lt_irrefl _ (hfresh _ hmem)
    · rw [if_neg hb', h.rootless b hb, hopen, List.mem_cons, or_iff_right hb']
      rfl
  case downward =>
    intro c p hc
    simp only [hroots] at hc ⊢
    by_cases hc' : c = s.current.block
    · rw [if_pos hc'] at hc
      obtain rfl := Option.some.inj hc
      exact Or.inl (hc' ▸ hgt)
    · rw [if_neg hc'] at hc
      exact h.downward_of_root hparent hc

theorem openBlocks_eq (h : s.Linked) (houter : s.outer = []) : s.openBlocks = [0] := by
  have houtermost := h.outermost
  rw [openBlocks, all, houter, List.map_cons, List.map_nil] at houtermost ⊢
  rw [List.getLast?_singleton, Option.some.injEq] at houtermost
  rw [houtermost]

theorem rootOf_isSome (h : s.Linked) (houter : s.outer = []) {b : Nat} (hb : b < s.store.size)
    (hne : b ≠ 0) : ∃ p, s.store.rootOf b = some p := by
  have hrootless := h.rootless b hb
  rw [h.openBlocks_eq houter, List.mem_singleton] at hrootless
  exact Option.ne_none_iff_exists'.mp fun hnone => hne (hrootless.mp hnone)

theorem mem_childrenOf (h : s.Linked) {p c : Nat} :
    c ∈ s.store.childrenOf p ↔ s.store.rootOf c = some p := by
  rw [← List.count_pos_iff, h.held]
  split_ifs with hroot <;> simp [hroot]

theorem child_lt_size (h : s.Linked) {b c : Nat} (hc : c ∈ s.store.childrenOf b) :
    c < s.store.size := by
  apply Nat.lt_of_not_le
  intro hle
  rw [h.mem_childrenOf, Store.rootOf_of_size_le hle] at hc
  cases hc

/-- Every block can be reached from the file. -/
theorem reachable (h : s.Linked) (houter : s.outer = []) (b : Nat) (hb : b < s.store.size) :
    Relation.ReflTransGen s.store.Holds 0 b := by
  induction b using Nat.strongRecOn with
  | ind b ih =>
    by_cases hzero : b = 0
    · rw [hzero]
    obtain ⟨p, hp⟩ := h.rootOf_isSome houter hb hzero
    have hholds : s.store.Holds p b := h.mem_childrenOf.mpr hp
    rcases h.downward b p hp with hlt | ⟨rfl, hnot⟩
    · exact (ih p hlt (Nat.lt_trans hlt hb)).tail hholds
    · have hnext : b + 1 < s.store.size :=
        Nat.lt_of_not_le fun hle => h.rootOf_ne_of_size_le hle b hp
      obtain ⟨q, hq⟩ := h.rootOf_isSome houter hnext (Nat.succ_ne_zero b)
      have hqb : q ≠ b := fun heq => hnot (b + 1) (heq ▸ hq)
      rcases h.downward (b + 1) q hq with hlt | ⟨_, hnot'⟩
      · have hlt' : q < b := Nat.lt_of_le_of_ne (Nat.le_of_lt_succ hlt) hqb
        exact ((ih q hlt' (Nat.lt_trans hlt' hb)).tail (h.mem_childrenOf.mpr hq)).tail hholds
      · exact absurd hp (hnot' b)

end Linked

end Scopes

end LineScript
