import LineScript.Proofs.Runs

/-!
# Links between blocks

A block holds other blocks: as elements, as handlers of signals, and as the handler of an
evaluation. Each block also has a pointer back, its root. The lemmas say what the edits of a store
do to both; a move that stays in the open scopes changes neither.
-/
namespace LineScript

/-- The block that an element holds. -/
def Element.child? : Element → Option BlockId
  | .block child => some child
  | .statement (.signal _ routine) => some routine
  | _ => none

namespace BlockKind

/-- The block that comes with a block from the start. -/
def companion : BlockKind → Option BlockId
  | evaluation handler => some handler
  | _ => none

/-- The part of a kind that no edit changes. -/
def fixed : BlockKind → BlockKind
  | file info => .file { info with package := none }
  | routine info => .routine { info with returned := none }
  | other => other

theorem companion_fixed (kind : BlockKind) : kind.fixed.companion = kind.companion := by
  cases kind <;> rfl

theorem isFile_fixed (kind : BlockKind) : kind.fixed.isFile = kind.isFile := by
  cases kind <;> rfl

theorem fixed_eq_mapLoop (kind : BlockKind) (loop : MapLoop) :
    kind.fixed = .mapLoop loop ↔ kind = .mapLoop loop := by
  cases kind <;> simp [fixed]

theorem fixed_close (given : Return) (kind : BlockKind) :
    (kind.close given).fixed = kind.fixed := by
  cases kind <;> rfl

end BlockKind

/-- The blocks that a block holds, each as often as it does. -/
def Block.children (block : Block) : List BlockId :=
  block.kind.companion.toList ++ block.elements.filterMap Element.child?

namespace Store

variable (s : Store)

def childrenOf (id : BlockId) : List BlockId :=
  match s.get? id with
  | some block => block.children
  | none => []

def rootOf (id : BlockId) : Option BlockId :=
  (s.get? id).bind Block.root

/-- The kind of a block, as far as it never changes. -/
def kindOf (id : BlockId) : Option BlockKind :=
  (s.get? id).map fun block => block.kind.fixed

theorem childrenOf_of_get? {s : Store} {id : BlockId} {block : Block}
    (h : s.get? id = some block) : s.childrenOf id = block.children := by
  rw [childrenOf, h]

theorem rootOf_of_get? {s : Store} {id : BlockId} {block : Block} (h : s.get? id = some block) :
    s.rootOf id = block.root := by
  rw [rootOf, h, Option.bind_some]

theorem kindOf_of_get? {s : Store} {id : BlockId} {block : Block} (h : s.get? id = some block) :
    s.kindOf id = some block.kind.fixed := by
  rw [kindOf, h, Option.map_some]

theorem exists_of_mem_childrenOf {s : Store} {id c : BlockId} (h : c ∈ s.childrenOf id) :
    ∃ block, s.get? id = some block ∧ c ∈ block.children := by
  rw [childrenOf] at h
  cases hblock : s.get? id with
  | none =>
    rw [hblock] at h
    cases h
  | some block =>
    rw [hblock] at h
    exact ⟨block, rfl, h⟩

theorem childrenOf_replace {s : Store} {id : BlockId} (h : id < s.size) (block : Block)
    (i : BlockId) :
    (s.replace id block).childrenOf i = if i = id then block.children else s.childrenOf i := by
  by_cases hi : i = id
  · rw [if_pos hi, hi, childrenOf_of_get? (get?_replace_self h block)]
  · rw [if_neg hi, childrenOf, childrenOf, s.get?_replace_of_ne hi]

theorem rootOf_replace {s : Store} {id : BlockId} (h : id < s.size) (block : Block)
    (i : BlockId) : (s.replace id block).rootOf i = if i = id then block.root else s.rootOf i := by
  by_cases hi : i = id
  · rw [if_pos hi, hi, rootOf_of_get? (get?_replace_self h block)]
  · rw [if_neg hi, rootOf, rootOf, s.get?_replace_of_ne hi]

theorem kindOf_replace {s : Store} {id : BlockId} {block changed : Block}
    (h : s.get? id = some block) (hkind : changed.kind.fixed = block.kind.fixed) (i : BlockId) :
    (s.replace id changed).kindOf i = s.kindOf i := by
  by_cases hi : i = id
  · rw [hi, kindOf_of_get? (get?_replace_self (lt_size_of_get? h) changed), kindOf_of_get? h, hkind]
  · rw [kindOf, kindOf, s.get?_replace_of_ne hi]

theorem childrenOf_of_size_le {s : Store} {i : Nat} (h : s.size ≤ i) : s.childrenOf i = [] := by
  have hnone : s.get? i = none := Array.getElem?_eq_none h
  rw [childrenOf, hnone]

theorem rootOf_of_size_le {s : Store} {i : Nat} (h : s.size ≤ i) : s.rootOf i = none := by
  have hnone : s.get? i = none := Array.getElem?_eq_none h
  rw [rootOf, hnone, Option.bind_none]

theorem childrenOf_extend_of_lt {s : Store} {i : Nat} (h : i < s.size) (made : List Block)
    (fresh : Nat) : (s.extend made fresh).childrenOf i = s.childrenOf i := by
  rw [childrenOf, childrenOf, get?_extend_of_lt h]

theorem rootOf_extend_of_lt {s : Store} {i : Nat} (h : i < s.size) (made : List Block)
    (fresh : Nat) : (s.extend made fresh).rootOf i = s.rootOf i := by
  rw [rootOf, rootOf, get?_extend_of_lt h]

theorem kindOf_extend {s : Store} {made : List Block} {fresh i : Nat} {kind : BlockKind}
    (h : (s.extend made fresh).kindOf i = some kind) :
    s.kindOf i = some kind ∨ s.size ≤ i ∧ ∃ block ∈ made, kind = block.kind.fixed := by
  by_cases hi : i < s.size
  · rw [kindOf, get?_extend_of_lt hi] at h
    exact Or.inl h
  · rw [kindOf, get?_extend, if_neg hi] at h
    obtain ⟨block, hblock, rfl⟩ := Option.map_eq_some_iff.mp h
    exact Or.inr ⟨Nat.le_of_not_lt hi, block, List.mem_of_getElem? hblock, rfl⟩

/-- A new block without links leaves the links as they are. -/
theorem links_extend_bare (block : Block) (hroot : block.root = none)
    (hchildren : block.children = []) (fresh : Nat) (i : Nat) :
    (s.extend [block] fresh).childrenOf i = s.childrenOf i ∧
      (s.extend [block] fresh).rootOf i = s.rootOf i := by
  rcases Nat.lt_trichotomy i s.size with hi | hi | hi
  · exact ⟨childrenOf_extend_of_lt hi _ _, rootOf_extend_of_lt hi _ _⟩
  · have hnew := s.get?_extend_single block fresh
    rw [hi, childrenOf_of_get? hnew, rootOf_of_get? hnew, hroot, hchildren,
      childrenOf_of_size_le (Nat.le_refl _), rootOf_of_size_le (Nat.le_refl _)]
    exact ⟨rfl, rfl⟩
  · have hle : (s.extend [block] fresh).size ≤ i := by rw [size_extend]; exact hi
    rw [childrenOf_of_size_le hle, rootOf_of_size_le hle, childrenOf_of_size_le (Nat.le_of_lt hi),
      rootOf_of_size_le (Nat.le_of_lt hi)]
    exact ⟨rfl, rfl⟩

/-- Two new blocks, the first of which belongs to the second, add one link. -/
theorem links_extend_pair {first second : Block} (hfirst : first.root = some (s.size + 1))
    (hbare : first.children = []) (hsecond : second.root = none)
    (hholds : second.children = [s.size]) (fresh : Nat) (i : Nat) :
    ((s.extend [first, second] fresh).childrenOf i =
        if i = s.size + 1 then [s.size] else s.childrenOf i) ∧
      (s.extend [first, second] fresh).rootOf i =
        if i = s.size then some (s.size + 1) else s.rootOf i := by
  have hnew : (s.extend [first, second] fresh).get? s.size = some first :=
    s.get?_extend_new _ _ 0
  have hnext : (s.extend [first, second] fresh).get? (s.size + 1) = some second :=
    s.get?_extend_new _ _ 1
  by_cases hi : i < s.size
  · rw [if_neg (by omega), if_neg (by omega)]
    exact ⟨childrenOf_extend_of_lt hi _ _, rootOf_extend_of_lt hi _ _⟩
  have hnone : s.size ≤ i := Nat.le_of_not_lt hi
  rw [childrenOf_of_size_le hnone, rootOf_of_size_le hnone]
  by_cases hfst : i = s.size
  · rw [hfst, childrenOf_of_get? hnew, rootOf_of_get? hnew, if_neg (by omega), if_pos rfl]
    exact ⟨hbare, hfirst⟩
  by_cases hsnd : i = s.size + 1
  · rw [hsnd, childrenOf_of_get? hnext, rootOf_of_get? hnext, if_pos rfl, if_neg (by omega)]
    exact ⟨hholds, hsecond⟩
  have hle : (s.extend [first, second] fresh).size ≤ i := by
    rw [size_extend]
    change s.size + 2 ≤ i
    omega
  rw [childrenOf_of_size_le hle, rootOf_of_size_le hle, if_neg hsnd, if_neg hfst]
  exact ⟨rfl, rfl⟩

/-- The store after a block has become part of another. -/
def attach (child parent : BlockId) (inner block : Block) (element : Element) : Store :=
  (s.replace child { inner with root := some parent }).replace parent
    { block with elements := block.elements ++ [element] }

variable {s} {child parent : BlockId} {inner block : Block} {element : Element}

theorem childrenOf_attach (hinner : s.get? child = some inner)
    (hblock : s.get? parent = some block) (helement : element.child? = some child) (i : BlockId) :
    (s.attach child parent inner block element).childrenOf i =
      if i = parent then s.childrenOf i ++ [child] else s.childrenOf i := by
  have hparent := lt_size_of_get? hblock
  have hchild := lt_size_of_get? hinner
  rw [attach, childrenOf_replace (by rwa [size_replace])]
  split_ifs with hi
  · rw [hi, childrenOf_of_get? hblock]
    simp [Block.children, helement]
  · rw [childrenOf_replace hchild]
    split_ifs with hi'
    · rw [hi', childrenOf_of_get? hinner]
      rfl
    · rfl

theorem rootOf_attach (hinner : s.get? child = some inner) (hblock : s.get? parent = some block)
    (hne : child ≠ parent) (element : Element) (i : BlockId) :
    (s.attach child parent inner block element).rootOf i =
      if i = child then some parent else s.rootOf i := by
  have hparent := lt_size_of_get? hblock
  rw [attach, rootOf_replace (by rwa [size_replace]), rootOf_replace (lt_size_of_get? hinner)]
  by_cases hi : i = parent
  · rw [if_pos hi, hi, if_neg (Ne.symm hne), rootOf_of_get? hblock]
  · rw [if_neg hi]

theorem kindOf_attach (hinner : s.get? child = some inner) (hblock : s.get? parent = some block)
    (hne : child ≠ parent) (element : Element) (i : BlockId) :
    (s.attach child parent inner block element).kindOf i = s.kindOf i := by
  have hparent : (s.replace child { inner with root := some parent }).get? parent = some block := by
    rw [get?_replace_of_ne _ (Ne.symm hne), hblock]
  rw [attach, kindOf_replace hparent (by rfl)]
  exact kindOf_replace hinner (by rfl) i

theorem get?_attach_cases (hinner : s.get? child = some inner) (hblock : s.get? parent = some block)
    {i : BlockId} {found : Block}
    (h : (s.attach child parent inner block element).get? i = some found) :
    i = parent ∧ found = { block with elements := block.elements ++ [element] } ∨
      i ≠ parent ∧ ∃ old, s.get? i = some old ∧ found.kind = old.kind ∧
        found.elements = old.elements := by
  have hparent := lt_size_of_get? hblock
  by_cases hi : i = parent
  · rw [hi, attach, get?_replace_self (by rwa [size_replace])] at h
    exact Or.inl ⟨hi, (Option.some.inj h).symm⟩
  · rw [attach, get?_replace_of_ne _ hi] at h
    refine Or.inr ⟨hi, ?_⟩
    by_cases hchild : i = child
    · rw [hchild, get?_replace_self (lt_size_of_get? hinner)] at h
      obtain rfl := Option.some.inj h
      exact ⟨inner, hchild ▸ hinner, rfl, rfl⟩
    · rw [s.get?_replace_of_ne hchild] at h
      exact ⟨found, h, rfl, rfl⟩

@[simp] theorem size_attach :
    (s.attach child parent inner block element).size = s.size := by
  rw [attach, size_replace, size_replace]

end Store

/-- An element that holds no block is added to a block and changes neither what the block holds
nor whom it belongs to. Only a dependency may go to the front. -/
theorem Edit.append_childless_ok {s t : Store} {parent : BlockId} {element : Element}
    (hchild : element.child? = none) (h : Succeeds (Edit.append parent element) s () t) :
    ∃ block changed, s.get? parent = some block ∧ block.closed = false ∧
      t = s.replace parent changed ∧ changed.kind.fixed = block.kind.fixed ∧
      changed.root = block.root ∧
      (changed.elements = block.elements ++ [element] ∨
        ∃ d, element = .statement (.dependency d) ∧
          changed.elements = element :: block.elements) := by
  cases hplain : element.isPlain with
  | true =>
    obtain ⟨block, hblock, hopen, rfl⟩ := append_plain_ok hplain h
    exact ⟨block, _, hblock, hopen, rfl, rfl, rfl, Or.inl rfl⟩
  | false =>
    cases element with
    | text _ | value _ | method _ => cases hplain
    | block _ => cases hchild
    | statement content =>
      cases content with
      | signal _ _ => cases hchild
      | binding _ | print _ | assign _ | exit _ => cases hplain
      | giveBack given =>
        obtain ⟨block, hblock, hopen, _, rfl⟩ := append_return_ok h
        exact ⟨block, _, hblock, hopen, rfl, block.kind.fixed_close given, rfl, Or.inl rfl⟩
      | package path =>
        obtain ⟨block, info, hblock, hopen, hkind, _, rfl⟩ := append_package_ok h
        refine ⟨block, _, hblock, hopen, rfl, ?_, rfl, Or.inl rfl⟩
        rw [hkind]
        rfl
      | dependency d =>
        obtain ⟨block, info, hblock, hopen, _, rfl⟩ := append_dependency_ok h
        refine ⟨block, _, hblock, hopen, rfl, rfl, rfl, ?_⟩
        cases info.headerDone with
        | true => exact Or.inr ⟨d, rfl, rfl⟩
        | false => exact Or.inl rfl

namespace Scopes

def openBlocks (s : Scopes) : List BlockId :=
  s.all.map Scope.block

/-- Scopes with the same open blocks over stores with the same links. -/
structure SameLinks (s t : Scopes) : Prop where
  file : t.file = s.file
  openBlocks : t.openBlocks = s.openBlocks
  size : t.store.size = s.store.size
  children : ∀ i, t.store.childrenOf i = s.store.childrenOf i
  root : ∀ i, t.store.rootOf i = s.store.rootOf i
  kind : ∀ i, t.store.kindOf i = s.store.kindOf i

theorem Adds.child? {s : Scopes} {c : Construct} {element : Element} (h : s.Adds c element) :
    element.child? = none := by
  cases h <;> rfl

theorem sameLinks_of_append {s t : Scopes} {parent : BlockId} {element : Element}
    (hchild : element.child? = none) (hfile : t.file = s.file)
    (hopen : t.openBlocks = s.openBlocks)
    (h : Succeeds (Edit.append parent element) s.store () t.store) : s.SameLinks t := by
  obtain ⟨block, changed, hblock, _, hstore, hkind, hroot, helements⟩ :=
    Edit.append_childless_ok hchild h
  have hlt := Store.lt_size_of_get? hblock
  have hchildren : changed.children = block.children := by
    unfold Block.children
    rw [← changed.kind.companion_fixed, hkind, block.kind.companion_fixed]
    rcases helements with helements | ⟨_, _, helements⟩ <;> simp [helements, hchild]
  refine ⟨hfile, hopen, by rw [hstore, Store.size_replace], ?_, ?_, ?_⟩
  · intro i
    rw [hstore, Store.childrenOf_replace hlt]
    split_ifs with hi
    · rw [hi, hchildren, Store.childrenOf_of_get? hblock]
    · rfl
  · intro i
    rw [hstore, Store.rootOf_replace hlt]
    split_ifs with hi
    · rw [hi, hroot, Store.rootOf_of_get? hblock]
    · rfl
  · rw [hstore]
    exact Store.kindOf_replace hblock hkind

theorem Stays.sameLinks {s t : Scopes} {c : Construct} (h : s.Stays c t) : s.SameLinks t := by
  cases h with
  | note log => exact ⟨rfl, rfl, rfl, fun _ => rfl, fun _ => rfl, fun _ => rfl⟩
  | add log hadds happend => exact sameLinks_of_append hadds.child? rfl rfl happend
  | declare log _ _ _ happend => exact sameLinks_of_append rfl rfl rfl happend
  | hoist log _ happend => exact sameLinks_of_append rfl rfl rfl happend
  | package log _ happend => exact sameLinks_of_append rfl rfl rfl happend

end Scopes

end LineScript
