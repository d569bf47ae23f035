import LineScript.Proofs.Tree

/-!
# Branches follow each other

A branch other than the first has to follow an `if` or another branch. This is checked on the line
that opens the branch, while the block of the branch comes after the elements of the block around
it only when its scope is closed. What is added to the block around it in the meantime ends up
between the two branches: dependencies go to the front of the file, but a package goes to its end.
-/
namespace LineScript

namespace Element

def isText : Element → Bool
  | text _ => true
  | _ => false

def isPackage : Element → Bool
  | statement (.package _) => true
  | _ => false

end Element

def BlockKind.branch? : BlockKind → Option Branch
  | condition info => some info.branch
  | _ => none

theorem BlockKind.branch?_fixed (kind : BlockKind) : kind.fixed.branch? = kind.branch? := by
  cases kind <;> rfl

namespace Store

/-- The branch that a block is, if it is the block of a condition. -/
def branchOf (s : Store) (id : BlockId) : Option Branch :=
  (s.get? id).bind fun block => block.kind.branch?

/-- A branch that has to follow another. -/
def IsLaterBranch (s : Store) (id : BlockId) : Prop :=
  ∃ branch, s.branchOf id = some branch ∧ branch ≠ .ifTrue

theorem IsLaterBranch.of_branchOf_eq {s t : Store} {id : BlockId} (h : t.IsLaterBranch id)
    (heq : t.branchOf id = s.branchOf id) : s.IsLaterBranch id := by
  obtain ⟨branch, hbranch, hne⟩ := h
  exact ⟨branch, heq ▸ hbranch, hne⟩

/-- The last element is a branch that another can follow, but for a gap after it. -/
def EndsInBranch (s : Store) (gap : Element → Prop) (elements : List Element) : Prop :=
  ∃ front previous between branch, elements = front ++ .block previous :: between ∧
    s.branchOf previous = some branch ∧ branch ≠ .otherwise ∧ ∀ e ∈ between, gap e

/-- Every later branch among the elements follows another, but for a gap between the two. -/
def InOrder (s : Store) (gap : Element → Prop) (elements : List Element) : Prop :=
  ∀ front b back, elements = front ++ .block b :: back → s.IsLaterBranch b →
    s.EndsInBranch gap front

variable {s t : Store} {gap : Element → Prop} {elements : List Element}

theorem branchOf_of_get? {id : BlockId} {block : Block} (h : s.get? id = some block) :
    s.branchOf id = block.kind.branch? := by
  rw [branchOf, h, Option.bind_some]

theorem branchOf_eq (s : Store) (id : BlockId) :
    s.branchOf id = (s.kindOf id).bind BlockKind.branch? := by
  rw [branchOf, kindOf]
  cases s.get? id with
  | none => rfl
  | some block => exact block.kind.branch?_fixed.symm

theorem lt_size_of_branchOf {id : BlockId} {branch : Branch} (h : s.branchOf id = some branch) :
    id < s.size := by
  obtain ⟨block, hblock, _⟩ := Option.bind_eq_some_iff.mp h
  exact lt_size_of_get? hblock

theorem branchOf_extend {id : Nat} (h : id < s.size) (made : List Block) (fresh : Nat) :
    (s.extend made fresh).branchOf id = s.branchOf id := by
  rw [branchOf, branchOf, get?_extend_of_lt h]

theorem branchOf_extend_cases {made : List Block} {fresh id : Nat} {branch : Branch}
    (h : (s.extend made fresh).branchOf id = some branch) :
    s.branchOf id = some branch ∨ ∃ block ∈ made, block.kind.branch? = some branch := by
  obtain ⟨block, hblock, hbranch⟩ := Option.bind_eq_some_iff.mp h
  rcases get?_extend_cases hblock with hmem | hold
  · exact Or.inr ⟨block, hmem, hbranch⟩
  · exact Or.inl (by rw [branchOf_of_get? hold, hbranch])

theorem EndsInBranch.mono (h : s.EndsInBranch gap elements)
    (hbranch : ∀ id branch, s.branchOf id = some branch → t.branchOf id = some branch) :
    t.EndsInBranch gap elements := by
  obtain ⟨front, previous, between, branch, heq, hprevious, hne, hgap⟩ := h
  exact ⟨front, previous, between, branch, heq, hbranch _ _ hprevious, hne, hgap⟩

theorem EndsInBranch.cons (h : s.EndsInBranch gap elements) (e : Element) :
    s.EndsInBranch gap (e :: elements) := by
  obtain ⟨front, previous, between, branch, rfl, hprevious⟩ := h
  exact ⟨e :: front, previous, between, branch, rfl, hprevious⟩

theorem EndsInBranch.snoc (h : s.EndsInBranch gap elements) {e : Element} (he : gap e) :
    s.EndsInBranch gap (elements ++ [e]) := by
  obtain ⟨front, previous, between, branch, rfl, hprevious, hne, hgap⟩ := h
  refine ⟨front, previous, between ++ [e], branch, by simp, hprevious, hne, ?_⟩
  intro x hx
  rcases List.mem_append.mp hx with hx | hx
  · exact hgap x hx
  · rwa [List.mem_singleton.mp hx]

namespace InOrder

theorem mono (h : s.InOrder gap elements)
    (hbranch : ∀ id branch, s.branchOf id = some branch → t.branchOf id = some branch)
    (hsame : ∀ b, Element.block b ∈ elements → t.branchOf b = s.branchOf b) :
    t.InOrder gap elements := by
  rintro front b back rfl ⟨branch, hb, hlater⟩
  rw [hsame b (by simp)] at hb
  exact (h front b back rfl ⟨branch, hb, hlater⟩).mono hbranch

theorem of_childless (h : ∀ e ∈ elements, e.child? = none) : s.InOrder gap elements := by
  rintro front b back rfl _
  have hnone := h (.block b) (by simp)
  cases hnone

theorem cons (h : s.InOrder gap elements) {e : Element} (he : e.child? = none) :
    s.InOrder gap (e :: elements) := by
  intro front b back heq hlater
  cases front with
  | nil =>
    obtain ⟨rfl, _⟩ := List.cons.inj heq
    cases he
  | cons first front =>
    obtain ⟨rfl, rfl⟩ := List.cons.inj heq
    exact (h front b back rfl hlater).cons e

/-- What comes last is no later branch, or the elements before it end in a branch. -/
theorem snoc (h : s.InOrder gap elements) {e : Element}
    (he : ∀ b, e = .block b → s.IsLaterBranch b → s.EndsInBranch gap elements) :
    s.InOrder gap (elements ++ [e]) := by
  intro front b back heq hlater
  rcases List.eq_nil_or_concat back with rfl | ⟨back', last, rfl⟩
  · obtain ⟨rfl, hlast⟩ := List.append_inj' heq rfl
    exact he b (List.singleton_inj.mp hlast) hlater
  · rw [List.concat_eq_append, ← List.cons_append, ← List.append_assoc] at heq
    obtain ⟨rfl, _⟩ := List.append_inj' heq rfl
    exact h front b back' rfl hlater

end InOrder

end Store

theorem Condition.branch_of_make {branch : Branch} {test : Option Test} {condition : Condition}
    (h : Condition.make branch test = .ok condition) : condition.branch = branch := by
  cases branch <;> cases test <;> cases h <;> rfl

namespace Scopes

/-- Branches follow each other in all blocks, and the blocks around open scopes are ready for the
branches that these scopes are. -/
structure Branched (gap : Element → Prop) (s : Scopes) : Prop where
  header : ∀ info, s.store.kindOf s.file = some (.file info) → info.headerDone = true
  stored : ∀ p block, s.store.get? p = some block → s.store.InOrder gap block.elements
  pending : ∀ front c p back block, s.openBlocks = front ++ c :: p :: back →
    s.store.IsLaterBranch c → s.store.get? p = some block → s.store.EndsInBranch gap block.elements
  /-- Neither a handler of a signal nor that of an evaluation is a later branch. -/
  held : ∀ p block b, s.store.get? p = some block → b ∈ block.children →
    s.store.IsLaterBranch b → Element.block b ∈ block.elements

theorem SameLinks.branchOf {s t : Scopes} (h : s.SameLinks t) (id : BlockId) :
    t.store.branchOf id = s.store.branchOf id := by
  rw [Store.branchOf_eq, Store.branchOf_eq, h.kind]

theorem mem_outer_of_openBlocks {s : Scopes} {front back : List BlockId} {c p : BlockId}
    (h : s.openBlocks = front ++ c :: p :: back) : ∃ scope ∈ s.outer, scope.block = p := by
  rw [openBlocks, all, List.map_cons] at h
  rw [← List.mem_map]
  cases front with
  | nil =>
    rw [(List.cons.inj h).2]
    exact List.mem_cons_self
  | cons first front =>
    rw [(List.cons.inj h).2]
    simp

theorem followsBranch_ok {s : Scopes} {gap : Element → Prop}
    (htext : ∀ e : Element, e.isText = true → gap e) (h : s.followsBranch = .ok true)
    {block : Block} (hblock : s.store.get? s.current.block = some block) :
    s.store.EndsInBranch gap block.elements := by
  have hread : s.store.block s.current.block = .ok block := by rw [Store.block, hblock]
  obtain ⟨found, hfound, h⟩ := (except_bind_ok _ _ _).mp h
  obtain rfl := Except.ok.inj (hread.symm.trans hfound)
  dsimp only at h
  split at h
  · rename_i id hfind
    obtain ⟨previous, hprevious, h⟩ := (except_bind_ok _ _ _).mp h
    obtain ⟨_, back, front, heq, hback⟩ := List.find?_eq_some_iff_append.mp hfind
    have hget : s.store.get? id = some previous := by
      rw [Store.block] at hprevious
      split at hprevious
      · rename_i hget
        rw [hget, Except.ok.inj hprevious]
      · cases hprevious
    split at h
    · rename_i condition hkind
      have hbranch := Store.branchOf_of_get? hget
      rw [hkind] at hbranch
      refine ⟨front.reverse, id, back.reverse, condition.branch, ?_, hbranch, ?_, ?_⟩
      · have hreverse := congrArg List.reverse heq
        rwa [List.reverse_reverse, List.reverse_append, List.reverse_cons, List.append_assoc,
          List.singleton_append] at hreverse
      · exact bne_iff_ne.mp ((except_pure_ok _ _).mp h)
      · intro e he
        have hskipped := hback e (List.mem_reverse.mp he)
        rw [Bool.not_not] at hskipped
        exact htext e hskipped
    · cases h
  · cases h

section Opening

variable {s : Scopes} {c : Construct} {o : Opened} (h : s.Opening c o)

include h

theorem Opening.made_childless : ∀ block ∈ o.made, ∀ e ∈ block.elements, e.child? = none := by
  cases h with
  | plain => simp [Block.ofKind]
  | condition _ _ _ => simp [Block.ofKind]
  | mapLoop _ _ _ => simp [Block.ofKind]
  | arrayLoop _ _ _ _ _ _ _ => simp [Block.ofKind]
  | attempt _ => simp [Block.ofKind, Element.child?]
  | routine _ _ =>
    simp only [List.mem_singleton, forall_eq, routineBlock]
    split_ifs <;> simp [Element.child?]
  | signal _ =>
    simp only [List.mem_singleton, forall_eq, routineBlock]
    split_ifs <;> simp [Element.child?]

/-- A later branch is made only where it can follow. -/
theorem Opening.made_branch {block : Block} (hmem : block ∈ o.made) {branch : Branch}
    (hbranch : block.kind.branch? = some branch) (hlater : branch ≠ .ifTrue) :
    c.isAttempt = false ∧ s.followsBranch = .ok true := by
  cases h with
  | condition _ hfollows hcondition =>
    obtain rfl := List.mem_singleton.mp hmem
    obtain rfl := Option.some.inj hbranch
    rw [Condition.branch_of_make hcondition] at hlater
    exact ⟨rfl, hfollows hlater⟩
  | attempt hcondition =>
    rcases List.mem_cons.mp hmem with rfl | hmem
    · obtain rfl := Option.some.inj hbranch
      exact absurd (Condition.branch_of_make hcondition) hlater
    · obtain rfl := List.mem_singleton.mp hmem
      cases hbranch
  | plain | mapLoop _ _ _ | arrayLoop _ _ _ _ _ _ _ | routine _ _ | signal _ =>
    obtain rfl := List.mem_singleton.mp hmem
    cases hbranch

/-- The one block that comes with a new block is the handler of an evaluation. -/
theorem Opening.made_holds_no_branch {block : Block} (hmem : block ∈ o.made) {b : BlockId}
    (hb : b ∈ block.children) : ¬ (s.store.extend o.made o.fresh).IsLaterBranch b := by
  rintro ⟨branch, hbranch, hne⟩
  rcases h.made_cases with ⟨_, only, hmade, _, hchildren⟩ |
    ⟨hattempt, handler, evaluation, hmade, _, hbare, _, hholds⟩
  · rw [hmade, List.mem_singleton] at hmem
    rw [hmem, hchildren] at hb
    cases hb
  · have hsize : b = s.store.size := by
      rw [hmade, List.mem_cons, List.mem_singleton] at hmem
      rcases hmem with rfl | rfl
      · rw [hbare] at hb
        cases hb
      · rw [hholds] at hb
        exact List.mem_singleton.mp hb
    rcases Store.branchOf_extend_cases hbranch with hnone | ⟨made, hmem, hmade⟩
    · exact absurd hsize (Nat.ne_of_lt (Store.lt_size_of_branchOf hnone))
    · rw [(Opening.made_branch h hmem hmade hne).1] at hattempt
      cases hattempt

end Opening

/-- A scope that ends as the handler of a signal is over a routine, not over a branch. -/
theorem mergedElement_of_isLaterBranch {s : Scopes} {inner : Block}
    (hinner : s.store.get? s.current.block = some inner)
    (hhandler : ∀ signal, s.current.merge = .handler signal → inner.kind.isRoutine = true)
    (hbranch : s.store.IsLaterBranch s.current.block) :
    Session.mergedElement s.current = .block s.current.block := by
  cases hmerge : s.current.merge with
  | block => rw [Session.mergedElement, hmerge]
  | handler signal =>
    have hroutine := hhandler signal hmerge
    obtain ⟨branch, hbranch, _⟩ := hbranch
    rw [Store.branchOf_of_get? hinner] at hbranch
    cases hinnerKind : inner.kind <;> simp [hinnerKind, BlockKind.isRoutine, BlockKind.branch?]
      at hroutine hbranch

namespace Branched

variable {gap : Element → Prop} {s t : Scopes}

theorem start (gap : Element → Prop) (name : String) (isModule : Bool) (deps : List Dependency) :
    (Scopes.start name isModule deps).Branched gap where
  header info hinfo := by
    obtain ⟨block, hblock, hkind⟩ := Option.map_eq_some_iff.mp hinfo
    obtain ⟨_, rfl⟩ := get?_start hblock
    obtain rfl := BlockKind.file.inj hkind
    rfl
  stored p block hblock := by
    obtain ⟨_, rfl⟩ := get?_start hblock
    refine .of_childless fun e he => ?_
    rcases mem_fileBlock he with ⟨d, rfl⟩ | rfl <;> rfl
  pending front c p back block hopen := by
    obtain ⟨scope, hscope, _⟩ := mem_outer_of_openBlocks hopen
    cases hscope
  held p block b hblock hb := by
    obtain ⟨_, rfl⟩ := get?_start hblock
    rw [fileBlock_children] at hb
    cases hb

/-- An element without a block is added to a block. If the block is that of an outer scope, the
element has to fit into the gap or to go to the front. -/
theorem replace (h : s.Branched gap) (hsame : s.SameLinks t) {x : BlockId} {block changed : Block}
    {e : Element} (hblock : s.store.get? x = some block)
    (hstore : t.store = s.store.replace x changed) (hchild : e.child? = none)
    (helements : changed.elements = e :: block.elements ∨
      changed.elements = block.elements ++ [e] ∧ (gap e ∨ ∀ scope ∈ s.outer, scope.block ≠ x)) :
    t.Branched gap := by
  have hlater (b : BlockId) (hb : t.store.IsLaterBranch b) : s.store.IsLaterBranch b :=
    hb.of_branchOf_eq (hsame.branchOf b)
  have hbranch (id : BlockId) (branch : Branch) (hid : s.store.branchOf id = some branch) :
      t.store.branchOf id = some branch := by
    rw [hsame.branchOf, hid]
  have hnotBlock (b : BlockId) : e ≠ .block b := by
    rintro rfl
    cases hchild
  constructor
  case header =>
    intro info hinfo
    rw [hsame.kind, hsame.file] at hinfo
    exact h.header info hinfo
  case stored =>
    intro p found hfound
    have hkept : s.store.InOrder gap found.elements := by
      rw [hstore] at hfound
      rcases Store.get?_replace_cases hfound with rfl | hfound
      · have horder := h.stored x block hblock
        rcases helements with helements | ⟨helements, _⟩
        · rw [helements]
          exact horder.cons hchild
        · rw [helements]
          exact horder.snoc fun b hb => absurd hb (hnotBlock b)
      · exact h.stored p found hfound
    exact hkept.mono hbranch fun b _ => hsame.branchOf b
  case pending =>
    intro front c p back found hopen hc hfound
    rw [hsame.openBlocks] at hopen
    by_cases hp : p = x
    · subst hp
      rw [hstore, Store.get?_replace_self (Store.lt_size_of_get? hblock)] at hfound
      obtain rfl := Option.some.inj hfound
      have hends := h.pending front c p back block hopen (hlater c hc) hblock
      rcases helements with helements | ⟨helements, hgap | houter⟩
      · rw [helements]
        exact (hends.cons e).mono hbranch
      · rw [helements]
        exact (hends.snoc hgap).mono hbranch
      · obtain ⟨scope, hscope, hne⟩ := mem_outer_of_openBlocks hopen
        exact absurd hne (houter scope hscope)
    · rw [hstore, Store.get?_replace_of_ne _ hp] at hfound
      exact (h.pending front c p back found hopen (hlater c hc) hfound).mono hbranch
  case held =>
    intro p found b hfound hb hbranchOf
    have hchildren := hsame.children p
    rw [Store.childrenOf_of_get? hfound] at hchildren
    rw [hchildren] at hb
    obtain ⟨old, hold, hmem⟩ := Store.exists_of_mem_childrenOf hb
    have hkept := h.held p old b hold hmem (hlater b hbranchOf)
    rw [hstore] at hfound
    by_cases hp : p = x
    · subst hp
      rw [Store.get?_replace_self (Store.lt_size_of_get? hblock)] at hfound
      obtain rfl := Option.some.inj hfound
      obtain rfl := Option.some.inj (hblock.symm.trans hold)
      rcases helements with helements | ⟨helements, _⟩ <;> rw [helements] <;> simp [hkept]
    · rw [Store.get?_replace_of_ne _ hp] at hfound
      obtain rfl := Option.some.inj (hold.symm.trans hfound)
      exact hkept

theorem append_current (h : s.Branched gap) (hlinked : s.Linked) (hsame : s.SameLinks t)
    {e : Element} (hchild : e.child? = none) (hdependency : ∀ d, e ≠ .statement (.dependency d))
    (happend : Succeeds (Edit.append s.current.block e) s.store () t.store) : t.Branched gap := by
  obtain ⟨block, changed, hblock, _, hstore, _, _, helements⟩ :=
    Edit.append_childless_ok hchild happend
  have houter (scope : Scope) (hscope : scope ∈ s.outer) : scope.block ≠ s.current.block :=
    Nat.ne_of_lt (hlinked.outer_lt_current hscope)
  rcases helements with helements | ⟨d, hd, _⟩
  · exact h.replace hsame hblock hstore hchild (Or.inr ⟨helements, Or.inr houter⟩)
  · exact absurd hd (hdependency d)

/-- Only a package can come between a branch and the block of the next one. -/
theorem stays (h : s.Branched gap) (hlinked : s.Linked) {c : Construct}
    (hpackage : ∀ path, c = .package path →
      (∀ e : Element, e.isPackage = true → gap e) ∨ s.outer = [])
    (hmove : s.Stays c t) : t.Branched gap := by
  have hsame := hmove.sameLinks
  cases hmove with
  | note log => exact ⟨h.header, h.stored, h.pending, h.held⟩
  | add log hadds happend =>
    refine h.append_current hlinked hsame hadds.child? ?_ happend
    intro d hd
    subst hd
    cases hadds
  | declare log _ _ _ happend =>
    exact h.append_current hlinked hsame rfl (by simp) happend
  | hoist log _ happend =>
    obtain ⟨block, info, hblock, _, hkind, hstore⟩ := Edit.append_dependency_ok happend
    have hheader := h.header { info with package := none } (by
      rw [Store.kindOf_of_get? hblock, hkind]
      rfl)
    rw [if_pos hheader] at hstore
    exact h.replace hsame hblock hstore rfl (Or.inl rfl)
  | @package path module store log _ happend =>
    obtain ⟨block, info, hblock, _, _, _, hstore⟩ := Edit.append_package_ok happend
    refine h.replace hsame hblock hstore rfl (Or.inr ⟨rfl, ?_⟩)
    rcases hpackage path rfl with hgap | houter
    · exact Or.inl (hgap _ rfl)
    · refine Or.inr fun scope hscope => ?_
      rw [houter] at hscope
      cases hscope

theorem opened (h : s.Branched gap) (hlinked : s.Linked)
    (htext : ∀ e : Element, e.isText = true → gap e) {c : Construct} {o : Opened}
    (hopening : s.Opening c o) (log : List LogEntry) : (s.opened o log).Branched gap := by
  have hstore : (s.opened o log).store = s.store.extend o.made o.fresh := rfl
  have hopened : (s.opened o log).openBlocks =
      (s.opened o log).current.block :: s.openBlocks := rfl
  have hfile := hlinked.zero_lt_size
  have hold {id : Nat} (hid : id < s.store.size) :
      (s.opened o log).store.branchOf id = s.store.branchOf id := Store.branchOf_extend hid _ _
  have hbranch (id : BlockId) (branch : Branch) (hid : s.store.branchOf id = some branch) :
      (s.opened o log).store.branchOf id = some branch := by
    rw [hold (Store.lt_size_of_branchOf hid), hid]
  have hlater {id : Nat} (hid : id < s.store.size)
      (h : (s.opened o log).store.IsLaterBranch id) : s.store.IsLaterBranch id :=
    h.of_branchOf_eq (hold hid)
  constructor
  case header =>
    intro info hinfo
    rcases Store.kindOf_extend hinfo with hinfo | ⟨hle, _⟩
    · exact h.header info hinfo
    · have hzero : (s.opened o log).file = 0 := hlinked.file
      rw [hzero] at hle
      exact absurd hfile (Nat.not_lt.mpr hle)
  case stored =>
    intro p block hblock
    rcases Store.get?_extend_cases hblock with hmem | hblock
    · exact .of_childless (hopening.made_childless block hmem)
    · refine (h.stored p block hblock).mono hbranch fun b hb =>
        hold (hlinked.child_lt_size (b := p) ?_)
      rw [Store.childrenOf_of_get? hblock, Block.children, List.mem_append, List.mem_filterMap]
      exact Or.inr ⟨.block b, hb, rfl⟩
  case pending =>
    intro front c' p back block hopen hc hblock
    rw [hopened] at hopen
    cases front with
    | nil =>
      obtain ⟨rfl, hrest⟩ := List.cons.inj hopen
      obtain ⟨rfl, _⟩ := List.cons.inj hrest
      have hcurrent : s.current.block < s.store.size :=
        hlinked.openBlocks_lt _ List.mem_cons_self
      rw [hstore, Store.get?_extend_of_lt hcurrent] at hblock
      obtain ⟨branch, hnew, hne⟩ := hc
      rcases Store.branchOf_extend_cases hnew with hnone | ⟨made, hmem, hmade⟩
      · have hlt : s.store.size + o.made.length - 1 < s.store.size :=
          Store.lt_size_of_branchOf hnone
        have hlength := hopening.made_length_pos
        omega
      · have hfollows := (hopening.made_branch hmem hmade hne).2
        exact (followsBranch_ok htext hfollows hblock).mono hbranch
    | cons first front =>
      have hrest := (List.cons.inj hopen).2
      have hmem {b : BlockId} (hb : b ∈ front ++ c' :: p :: back) : b < s.store.size :=
        hlinked.openBlocks_lt b (by rw [hrest]; exact hb)
      rw [hstore, Store.get?_extend_of_lt (hmem (by simp))] at hblock
      exact (h.pending front c' p back block hrest (hlater (hmem (by simp)) hc) hblock).mono hbranch
  case held =>
    intro p block b hblock hb hbLater
    rcases Store.get?_extend_cases hblock with hmem | hblock
    · exact absurd hbLater (hopening.made_holds_no_branch hmem hb)
    · have hchild := hlinked.child_lt_size (b := p) (c := b)
        (by rw [Store.childrenOf_of_get? hblock]; exact hb)
      exact h.held p block b hblock hb (hlater hchild hbLater)

theorem closes (h : s.Branched gap) (hlinked : s.Linked) (hmove : s.Closes t) :
    t.Branched gap := by
  have hclosed := hlinked.closes hmove
  obtain ⟨parent, outer, block, inner, log, houter, hgt, hblock, _, hinner, _, hhandler, rfl⟩ :=
    hlinked.attach_of_closes hmove
  have hne := Nat.ne_of_gt hgt
  have hopen : s.openBlocks = s.current.block :: parent.block :: outer.map Scope.block := by
    rw [openBlocks, all, houter, List.map_cons, List.map_cons]
  have hkind (id : BlockId) :
      (s.store.attach s.current.block parent.block inner block
        (Session.mergedElement s.current)).kindOf id = s.store.kindOf id :=
    Store.kindOf_attach hinner hblock hne _ id
  have hsame (id : BlockId) :
      (s.store.attach s.current.block parent.block inner block
        (Session.mergedElement s.current)).branchOf id = s.store.branchOf id := by
    rw [Store.branchOf_eq, Store.branchOf_eq, hkind]
  have hbranch (id : BlockId) (branch : Branch) (hid : s.store.branchOf id = some branch) :
      (s.store.attach s.current.block parent.block inner block
        (Session.mergedElement s.current)).branchOf id = some branch := by
    rw [hsame, hid]
  have hlater {id : BlockId} (h : (s.store.attach s.current.block parent.block inner block
        (Session.mergedElement s.current)).IsLaterBranch id) : s.store.IsLaterBranch id :=
    h.of_branchOf_eq (hsame id)
  constructor
  case header =>
    intro info hinfo
    rw [hkind] at hinfo
    exact h.header info hinfo
  case stored =>
    intro p found hfound
    have hkept : s.store.InOrder gap found.elements := by
      rcases Store.get?_attach_cases hinner hblock hfound with ⟨_, rfl⟩ | ⟨_, old, hold, _, heq⟩
      · refine (h.stored _ block hblock).snoc fun b hb hbLater => ?_
        have hchild := child?_mergedElement s.current
        rw [hb] at hchild
        obtain rfl := Option.some.inj hchild
        exact h.pending [] _ _ _ block hopen hbLater hblock
      · rw [heq]
        exact h.stored p old hold
    exact hkept.mono hbranch fun b _ => hsame b
  case pending =>
    intro front c p back found hopen' hc hfound
    have hopenAll : s.openBlocks = (s.current.block :: front) ++ c :: p :: back := by
      rw [hopen, List.cons_append, ← hopen']
      rfl
    rcases Store.get?_attach_cases hinner hblock hfound with ⟨rfl, _⟩ | ⟨_, old, hold, _, heq⟩
    · obtain ⟨scope, hscope, hparent⟩ := mem_outer_of_openBlocks hopen'
      exact absurd hparent (Nat.ne_of_lt (hclosed.outer_lt_current hscope))
    · rw [heq]
      exact (h.pending _ c p back old hopenAll (hlater hc) hold).mono hbranch
  case held =>
    intro p found b hfound hb hbLater
    rcases Store.get?_attach_cases hinner hblock hfound with ⟨rfl, rfl⟩ | ⟨_, old, hold, hold', heq⟩
    · have hchildren := Store.childrenOf_attach hinner hblock (child?_mergedElement s.current)
        parent.block
      rw [Store.childrenOf_of_get? hfound, if_pos rfl, Store.childrenOf_of_get? hblock] at hchildren
      rw [hchildren, List.mem_append, List.mem_singleton] at hb
      rw [List.mem_append, List.mem_singleton]
      rcases hb with hb | rfl
      · exact Or.inl (h.held _ block b hblock hb (hlater hbLater))
      · exact Or.inr (mergedElement_of_isLaterBranch hinner hhandler (hlater hbLater)).symm
    · rw [heq]
      refine h.held p old b hold ?_ (hlater hbLater)
      rwa [Block.children, hold', heq] at hb

/-- Branches follow each other after every run in which a package that does not fit into the gap
is set only outside all scopes. -/
theorem of_runs {name : String} {isModule : Bool} {deps : List Dependency}
    {lines : List Construct} (htext : ∀ e : Element, e.isText = true → gap e)
    (hpackage : ∀ front path back, lines = front ++ .package path :: back →
      (∀ e : Element, e.isPackage = true → gap e) ∨ ∀ stack, Nested front stack → stack = [])
    (hruns : (Scopes.start name isModule deps).Runs lines s) : s.Branched gap := by
  have hinvariant := hruns.invariant_along
    (fun front c => ∀ path, c = .package path →
      (∀ e : Element, e.isPackage = true → gap e) ∨ ∀ stack, Nested front stack → stack = [])
    (fun lines s => s.Mirrors lines ∧ s.Branched gap)
  refine (hinvariant ?_ ⟨.start _ _ _, .start gap _ _ _⟩ ?_ ?_ ?_ ?_).2
  · rintro front c back heq path rfl
    exact hpackage front path back heq
  · rintro lines c s t hallowed hmove ⟨hmirrors, h⟩
    refine ⟨hmirrors.sameLinks hmove.sameLinks,
      h.stays hmirrors.linked (fun path hpath => ?_) hmove⟩
    refine (hallowed path hpath).imp_right fun houtside => ?_
    obtain ⟨stack, hnested, hopen⟩ := hmirrors.nested
    obtain rfl := houtside stack hnested
    rw [openBlocks, all, List.map_cons] at hopen
    exact List.map_eq_nil_iff.mp (List.cons.inj hopen).2
  · rintro lines c s hopens hcloses ⟨hmirrors, h⟩
    exact ⟨hmirrors.snoc_other hopens hcloses, h⟩
  · rintro lines c s o log _ hopens hopening ⟨hmirrors, h⟩
    exact ⟨hmirrors.opened hopens hopening log, h.opened hmirrors.linked htext hopening log⟩
  · rintro lines c s t hcloses hmove ⟨hmirrors, h⟩
    exact ⟨hmirrors.closes hcloses hmove, h.closes hmirrors.linked hmove⟩

/-- A later branch stands once among the elements of the block that it belongs to, right after
another branch. -/
theorem exists_parent (h : s.Branched gap) (hlinked : s.Linked) (houter : s.outer = [])
    {b : BlockId} (hb : s.store.IsLaterBranch b) :
    ∃ parent block, s.store.rootOf b = some parent ∧ s.store.get? parent = some block ∧
      Element.block b ∈ block.elements ∧ s.store.InOrder gap block.elements := by
  obtain ⟨branch, hbranch, hne⟩ := hb
  have hlt := Store.lt_size_of_branchOf hbranch
  have hzero : b ≠ 0 := by
    rintro rfl
    obtain ⟨block, hblock, hkind⟩ := Option.bind_eq_some_iff.mp hbranch
    have hfile := (hlinked.files 0 _ (Store.kindOf_of_get? hblock)).mpr rfl
    rw [block.kind.isFile_fixed] at hfile
    cases hfileKind : block.kind <;> simp [hfileKind, BlockKind.isFile, BlockKind.branch?]
      at hfile hkind
  obtain ⟨parent, hparent⟩ := hlinked.rootOf_isSome houter hlt hzero
  obtain ⟨block, hblock, hmem⟩ :=
    Store.exists_of_mem_childrenOf (hlinked.mem_childrenOf.mpr hparent)
  exact ⟨parent, block, hparent, hblock, h.held parent block b hblock hmem ⟨branch, hbranch, hne⟩,
    h.stored parent block hblock⟩

end Branched

end Scopes

theorem Nested.encloses_next {lines : List Construct} {j : Nat} {stack : List Nat}
    (h : Nested lines (j :: stack)) (more : List Construct) :
    Encloses (lines ++ more) j lines.length := by
  cases h with
  | @inside front inner o _ _ hopens hinner =>
    refine ⟨by simp, ⟨o, by simp, hopens⟩, ?_⟩
    rw [List.take_left, List.append_cons, List.drop_left' (by simp)]
    exact hinner

/-- In a compiled script, a branch other than the first comes directly after a branch that another
can follow, among the elements of the block that both belong to. Only texts and packages can stand
in between, and packages only if a line sets one inside a scope. -/
theorem later_branch_follows {settings : Settings} {script : Script} {program : Program}
    {log : List LogEntry} (h : compile settings script = (.ok program, log)) {b : BlockId}
    (hb : program.store.IsLaterBranch b) :
    ∃ parent block front back, program.store.rootOf b = some parent ∧
      program.store.get? parent = some block ∧ block.elements = front ++ .block b :: back ∧
      program.store.EndsInBranch (fun e => e.isText = true ∨ e.isPackage = true) front ∧
      ((∀ lines i path, script.lines.mapM (fun line => Line.classify line.2) = .ok lines →
          lines[i]? = some (.package path) → ∀ j, ¬ Encloses lines j i) →
        program.store.EndsInBranch (fun e => e.isText = true) front) := by
  obtain ⟨deps, lines, final, hlines, hruns, houter, rfl, _⟩ := compile_ok h
  have hlinked := (Scopes.Mirrors.of_runs hruns).linked
  have hbranched : final.Branched fun e => e.isText = true ∨ e.isPackage = true :=
    .of_runs (fun _ => Or.inl) (fun _ _ _ _ => Or.inl fun _ => Or.inr) hruns
  obtain ⟨parent, block, hparent, hblock, hmem, horder⟩ :=
    hbranched.exists_parent hlinked houter hb
  obtain ⟨front, back, heq⟩ := List.append_of_mem hmem
  refine ⟨parent, block, front, back, hparent, hblock, heq, horder front b back heq hb, ?_⟩
  intro houtside
  have hdirect : final.Branched fun e => e.isText = true := by
    refine .of_runs (fun _ => id)
      (fun front path back hsplit => Or.inr fun stack hnested => ?_) hruns
    cases stack with
    | nil => rfl
    | cons j stack =>
      have hencloses := hnested.encloses_next (.package path :: back)
      rw [← hsplit] at hencloses
      exact absurd hencloses (houtside lines front.length path hlines (by simp [hsplit]) j)
  exact hdirect.stored parent block hblock front b back heq hb

theorem later_branch_follows_blank_lines :
    ∃ program log parent block front back,
      compile {} (.ofSource "a" "Int x = 1\nif x \x7b\n\x7d\n\nelif x \x7b\n\x7d\n\n\nelse \x7b\n\x7d") =
        (.ok program, log) ∧
      program.store.IsLaterBranch 3 ∧ program.store.rootOf 3 = some parent ∧
      program.store.get? parent = some block ∧ block.elements = front ++ .block 3 :: back ∧
      program.store.EndsInBranch (fun e => e.isText = true ∨ e.isPackage = true) front := by
  obtain ⟨program, log, h, hbranch⟩ := exists_of_compile_any {}
    (.ofSource "a" "Int x = 1\nif x \x7b\n\x7d\n\nelif x \x7b\n\x7d\n\n\nelse \x7b\n\x7d")
    (fun program => program.store.branchOf 3 == some .otherwise) (by decide +kernel)
  have hlater : program.store.IsLaterBranch 3 := ⟨.otherwise, beq_iff_eq.mp hbranch, by decide⟩
  obtain ⟨parent, block, front, back, hparent, hblock, heq, hends, _⟩ :=
    later_branch_follows h hlater
  exact ⟨program, log, parent, block, front, back, h, hlater, hparent, hblock, heq, hends⟩

/-- The elements are a text, a value, and two blocks with a package between them. -/
def splitsBranches : List Element → Bool
  | [.text _, .value _, .block 1, .statement (.package _), .block 2] => true
  | _ => false

/-- A package that is set in the body of an `else` comes between the `else` and its `if`. -/
theorem package_between_branches :
    ∃ program log block front back,
      compile { isModule := true, defaultDependencies := [] }
          (.ofSource "a" "Int x = 1\nif x \x7b\n\x7d\nelse \x7b\npackage A\n\x7d") =
        (.ok program, log) ∧
      program.store.IsLaterBranch 2 ∧ program.store.get? 0 = some block ∧
      block.elements = front ++ .block 2 :: back ∧
      ¬ program.store.EndsInBranch (fun e => e.isText = true) front := by
  obtain ⟨program, log, h, hcheck⟩ := exists_of_compile_any
    { isModule := true, defaultDependencies := [] }
    (.ofSource "a" "Int x = 1\nif x \x7b\n\x7d\nelse \x7b\npackage A\n\x7d")
    (fun program => program.store.branchOf 2 == some .otherwise &&
      (program.store.get? 0).any fun block => splitsBranches block.elements) (by decide +kernel)
  rw [Bool.and_eq_true, beq_iff_eq, Option.any_eq_true] at hcheck
  obtain ⟨hbranch, block, hblock, hsplits⟩ := hcheck
  unfold splitsBranches at hsplits
  split at hsplits
  · rename_i content value path heq
    refine ⟨program, log, block,
      [.text content, .value value, .block 1, .statement (.package path)], [], h, ⟨.otherwise, hbranch, by decide⟩, hblock, heq, ?_⟩
    rintro ⟨front, previous, between, branch, hfront, _, _, hgap⟩
    rcases List.eq_nil_or_concat between with rfl | ⟨between, last, rfl⟩
    · have hlast := congrArg List.getLast? hfront
      simp at hlast
    · have hlast := congrArg List.getLast? hfront
      rw [List.concat_eq_append, ← List.cons_append, ← List.append_assoc,
        List.getLast?_concat] at hlast
      obtain rfl := Option.some.inj hlast
      have htext := hgap (.statement (.package path)) (by simp)
      cases htext
  · cases hsplits

end LineScript
