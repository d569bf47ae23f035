import LineScript.Proofs.Bound

/-!
# Static scoping

What a name means at a position in the finished tree of blocks is read off the tree alone: the
latest binding before the position in its block, or else what the name means where the block stands
in its root. What a compiled script refers to is bound in this sense where it stands, with two
exceptions. The element of a loop over an array refers to the counter of the loop, which no block
binds. And a value that is handed back still refers to what it was declared with, while the names
may have got another meaning in between.
-/
namespace LineScript

/-- A position in a block is given by the number of elements before it. -/
structure Position where
  block : BlockId
  index : Nat

namespace Store

def elementAt? (s : Store) (pos : Position) : Option Element :=
  (s.get? pos.block).bind fun block => block.elements[pos.index]?

/-- The bindings that stand before a position in its block, the latest first. -/
def frameAt (s : Store) (pos : Position) : Frame :=
  match s.get? pos.block with
  | some block => block.kind.frame (block.elements.take pos.index)
  | none => []

/-- The block is what the element at the position holds, in the root of the block. -/
def HoldsAt (s : Store) (pos : Position) (b : BlockId) : Prop :=
  s.rootOf b = some pos.block ∧ (s.elementAt? pos).bind Element.child? = some b

/-- At the first position, the name means the binder. It is bound in the block of the second, before
it: the first position itself, or where one of the blocks around it stands. -/
inductive Binds (s : Store) (name : String) : Position → Position → Binder → Prop where
  | here {pos : Position} {binder : Binder}
      (hlookup : (s.frameAt pos).lookup name = some binder) : Binds s name pos pos binder
  | outside {pos root home : Position} {binder : Binder}
      (hlookup : (s.frameAt pos).lookup name = none) (hholds : s.HoldsAt root pos.block)
      (hroot : Binds s name root home binder) : Binds s name pos home binder

/-- The name means something at the position. -/
def Known (s : Store) (name : String) (pos : Position) : Prop :=
  ∃ home binder, s.Binds name pos home binder

/-- The variable is bound at the position, to something of its kind. -/
def BoundAt (s : Store) (v : Variable) (pos : Position) : Prop :=
  ∃ home binder, s.Binds v.name pos home binder ∧ binder.Agrees v

/-- The variable is referred to at the position: by the element there, or by the header of the
block that the element holds. -/
inductive RefersAt (s : Store) (v : Variable) (pos : Position) : Prop where
  | element {e : Element} (he : s.elementAt? pos = some e) (hv : v ∈ e.uses)
  | header {b : BlockId} {block : Block} (hblock : s.get? b = some block)
      (hholds : s.HoldsAt pos b) (hv : v ∈ block.kind.uses)

/-- Every variable is bound wherever it is referred to. -/
def AllBound (s : Store) : Prop :=
  ∀ v pos, s.RefersAt v pos → s.BoundAt v pos

/-- The block is a loop over an array, and the variable is its counter. -/
def IsCounter (s : Store) (v : Variable) (b : BlockId) : Prop :=
  ∃ block loop, s.get? b = some block ∧ block.kind = .arrayLoop loop ∧
    loop.counter.toVariable = .ok v

/-- Where the binder stands that a block has before a position: at the element that declares it, or
where the loop stands whose element it is. -/
inductive Origin (s : Store) (home : Position) : Binder → Position → Prop where
  | declared {bound : Value} {i : Nat} (hi : i < home.index)
      (he : s.elementAt? ⟨home.block, i⟩ = some (.value bound)) :
      Origin s home (.declared bound) ⟨home.block, i⟩
  | item {block : Block} {loop : ArrayLoop} {root : Position}
      (hblock : s.get? home.block = some block) (hkind : block.kind = .arrayLoop loop)
      (hholds : s.HoldsAt root home.block) : Origin s home (.item loop.element) root

variable {s : Store}

theorem elementAt?_eq_some {pos : Position} {e : Element} :
    s.elementAt? pos = some e ↔
      ∃ block, s.get? pos.block = some block ∧ block.elements[pos.index]? = some e :=
  Option.bind_eq_some_iff

theorem frameAt_of_get? {pos : Position} {block : Block} (h : s.get? pos.block = some block) :
    s.frameAt pos = block.kind.frame (block.elements.take pos.index) := by
  rw [frameAt, h]

theorem holdsAt_iff {pos : Position} {b : BlockId} :
    s.HoldsAt pos b ↔ s.rootOf b = some pos.block ∧
      ∃ root e, s.get? pos.block = some root ∧ root.elements[pos.index]? = some e ∧
        e.child? = some b := by
  rw [HoldsAt, Option.bind_eq_some_iff]
  refine and_congr_right fun _ => ?_
  constructor
  · rintro ⟨e, he, hchild⟩
    obtain ⟨root, hroot, hindex⟩ := elementAt?_eq_some.mp he
    exact ⟨root, e, hroot, hindex, hchild⟩
  · rintro ⟨root, e, hroot, hindex, hchild⟩
    exact ⟨e, elementAt?_eq_some.mpr ⟨root, hroot, hindex⟩, hchild⟩

theorem lookup_frameAt_of_le {name : String} {b : BlockId} {i j : Nat} (hij : i ≤ j)
    (h : (s.frameAt ⟨b, j⟩).lookup name = none) : (s.frameAt ⟨b, i⟩).lookup name = none := by
  cases hblock : s.get? b with
  | none =>
    rw [frameAt, hblock]
    rfl
  | some block =>
    rw [frameAt_of_get? hblock] at h ⊢
    exact block.kind.lookup_frame_take hij h

theorem exists_block_of_lookup {name : String} {pos : Position} {binder : Binder}
    (h : (s.frameAt pos).lookup name = some binder) :
    ∃ block, s.get? pos.block = some block ∧
      (block.kind.frame (block.elements.take pos.index)).lookup name = some binder := by
  cases hblock : s.get? pos.block with
  | none =>
    rw [frameAt, hblock] at h
    cases h
  | some block =>
    rw [frameAt_of_get? hblock] at h
    exact ⟨block, rfl, h⟩

theorem Binds.lookup_home {name : String} {pos home : Position} {binder : Binder}
    (h : s.Binds name pos home binder) : (s.frameAt home).lookup name = some binder := by
  induction h with
  | here hlookup => exact hlookup
  | outside _ _ _ ih => exact ih

/-- A name that means something where a block stands means something in the block. -/
theorem Known.inside {name : String} {root pos : Position} (h : s.Known name root)
    (hholds : s.HoldsAt root pos.block) : s.Known name pos := by
  obtain ⟨home, binder, hroot⟩ := h
  cases hlookup : (s.frameAt pos).lookup name with
  | none => exact ⟨home, binder, .outside hlookup hholds hroot⟩
  | some found => exact ⟨pos, found, .here hlookup⟩

theorem Known.later {name : String} {b : BlockId} {i j : Nat} (h : s.Known name ⟨b, i⟩)
    (hij : i ≤ j) : s.Known name ⟨b, j⟩ := by
  obtain ⟨home, binder, hbinds⟩ := h
  cases hlookup : (s.frameAt ⟨b, j⟩).lookup name with
  | some found => exact ⟨_, found, .here hlookup⟩
  | none =>
    cases hbinds with
    | outside _ hholds hroot => exact ⟨home, binder, .outside hlookup hholds hroot⟩
    | here hearlier => cases hearlier.symm.trans (lookup_frameAt_of_le hij hlookup)

theorem BoundAt.known {v : Variable} {pos : Position} (h : s.BoundAt v pos) :
    s.Known v.name pos := by
  obtain ⟨home, binder, hbinds, _⟩ := h
  exact ⟨home, binder, hbinds⟩

/-- What means something around the binding of a name does so where the name is used. -/
theorem Binds.known {name other : String} {pos home : Position} {binder : Binder}
    (h : s.Binds name pos home binder) (hother : s.Known other home) : s.Known other pos := by
  induction h with
  | here _ => exact hother
  | outside _ hholds _ ih => exact (ih hother).inside hholds

/-- A name that means something is one of those that the blocks bind. -/
theorem BindsOnly.of_binds {names : List String} (h : s.BindsOnly names) {name : String}
    {pos home : Position} {binder : Binder} (hbinds : s.Binds name pos home binder) :
    name ∈ names := by
  obtain ⟨block, hblock, hlookup⟩ := exists_block_of_lookup hbinds.lookup_home
  refine h home.block (name, binder) ?_
  rw [frameOf_of_get? hblock]
  exact block.kind.frame_take_subset _ _ (mem_of_lookup hlookup)

end Store

namespace Scopes.Linked

variable {s : Scopes}

theorem holdsAt_le (h : s.Linked) {b p : BlockId} {i j : Nat} (hi : s.store.HoldsAt ⟨p, i⟩ b)
    (hj : s.store.HoldsAt ⟨p, j⟩ b) : j ≤ i := by
  obtain ⟨hrootOf, root, e, hroot, he, heb⟩ := Store.holdsAt_iff.mp hi
  obtain ⟨_, root', e', hroot', he', heb'⟩ := Store.holdsAt_iff.mp hj
  obtain rfl := Option.some.inj (hroot.symm.trans hroot')
  have hcount : (root.elements.filterMap Element.child?).count b ≤ 1 := by
    have hheld := h.held p b
    rw [if_pos hrootOf, Store.childrenOf_of_get? hroot, Block.children, List.count_append] at hheld
    omega
  by_contra hlt
  rw [← List.take_append_drop (i + 1) root.elements, List.filterMap_append,
    List.count_append] at hcount
  have hfront : b ∈ (root.elements.take (i + 1)).filterMap Element.child? :=
    List.mem_filterMap.mpr ⟨e, List.mem_of_getElem? (by rwa [List.getElem?_take_of_succ]), heb⟩
  have hback : b ∈ (root.elements.drop (i + 1)).filterMap Element.child? := by
    refine List.mem_filterMap.mpr ⟨e', List.mem_of_getElem? (i := j - (i + 1)) ?_, heb'⟩
    rwa [List.getElem?_drop, Nat.add_sub_cancel' (Nat.succ_le_of_lt (Nat.lt_of_not_le hlt))]
  have hfront' := List.count_pos_iff.mpr hfront
  have hback' := List.count_pos_iff.mpr hback
  omega

theorem holdsAt_unique (h : s.Linked) {b : BlockId} {pos pos' : Position}
    (hholds : s.store.HoldsAt pos b) (hholds' : s.store.HoldsAt pos' b) : pos = pos' := by
  obtain ⟨p, i⟩ := pos
  obtain ⟨q, j⟩ := pos'
  obtain rfl : p = q := Option.some.inj (hholds.1.symm.trans hholds'.1)
  rw [Nat.le_antisymm (h.holdsAt_le hholds' hholds) (h.holdsAt_le hholds hholds')]

/-- Each block stands at one position, so that a name means one thing at most. -/
theorem binds_unique (h : s.Linked) {name : String} {pos home home' : Position}
    {binder binder' : Binder} (hbinds : s.store.Binds name pos home binder)
    (hbinds' : s.store.Binds name pos home' binder') : home = home' ∧ binder = binder' := by
  induction hbinds with
  | here hlookup =>
    cases hbinds' with
    | here hlookup' => exact ⟨rfl, Option.some.inj (hlookup.symm.trans hlookup')⟩
    | outside hlookup' _ _ => cases hlookup.symm.trans hlookup'
  | outside hlookup hholds _ ih =>
    cases hbinds' with
    | here hlookup' => cases hlookup.symm.trans hlookup'
    | outside _ hholds' hroot' =>
      obtain rfl := h.holdsAt_unique hholds hholds'
      exact ih hroot'

end Scopes.Linked

/-- All scopes but that of the file are closed. -/
structure Scopes.Finished (s : Scopes) (context : BlockId → List Frame) : Prop where
  linked : s.Linked
  frames : s.Scoped context
  outer : s.outer = []

namespace Scopes.Finished

variable {s : Scopes} {context : BlockId → List Frame}

theorem context_file (h : s.Finished context) : context 0 = [] := by
  have hopen := h.linked.openBlocks_eq h.outer
  have hframed := h.frames.framed
  rw [openBlocks, all, h.outer, List.map_cons, List.map_nil, List.singleton_inj] at hopen
  rw [all, h.outer] at hframed
  cases hframed with
  | cons _ hcontext _ =>
    rw [hopen] at hcontext
    exact hcontext

/-- A block with frames around it stands in its root, and these are the frames there. -/
theorem exists_holdsAt (h : s.Finished context) {b : BlockId} (hb : context b ≠ []) :
    ∃ pos, s.store.HoldsAt pos b ∧
      context b = s.store.frameAt pos :: context pos.block := by
  have hopen : b ∉ s.openBlocks := by
    rw [h.linked.openBlocks_eq h.outer, List.mem_singleton]
    intro hzero
    exact hb (hzero ▸ h.context_file)
  obtain ⟨p, hmem, hcompanion⟩ := (h.frames.placed b hb).resolve_left hopen
  obtain ⟨root, hroot, hchild⟩ := Store.exists_of_mem_childrenOf hmem
  have hnot : b ∉ root.kind.companion.toList := by
    intro hin
    have hkind := hcompanion _ (Store.kindOf_of_get? hroot)
    rw [BlockKind.companion_fixed] at hkind
    exact hkind (Option.mem_toList.mp hin)
  obtain ⟨e, he, heb⟩ := List.mem_filterMap.mp ((List.mem_append.mp hchild).resolve_left hnot)
  obtain ⟨front, back, hsplit⟩ := List.append_of_mem he
  refine ⟨⟨p, front.length⟩,
    Store.holdsAt_iff.mpr ⟨h.linked.mem_childrenOf.mp hmem, root, e, hroot, ?_, heb⟩, ?_⟩
  · rw [hsplit, List.getElem?_append_right (Nat.le_refl _), Nat.sub_self]
    rfl
  · rw [Store.frameAt_of_get? hroot, hsplit, List.take_left]
    exact (h.frames.store.element p root front e back hroot hsplit).2 b heb

/-- What the frames say is what the tree says. The induction is on the frames around the block. -/
theorem exists_binds (h : s.Finished context) {pos : Position} {name : String} {binder : Binder}
    (hbinder : findBinder (s.store.frameAt pos :: context pos.block) name = some binder) :
    ∃ home, s.store.Binds name pos home binder := by
  rw [findBinder, List.findSome?_cons] at hbinder
  induction hframes : context pos.block generalizing pos with
  | nil =>
    cases hlookup : (s.store.frameAt pos).lookup name with
    | none =>
      rw [hlookup, hframes] at hbinder
      cases hbinder
    | some found =>
      rw [hlookup] at hbinder
      exact ⟨pos, .here (hlookup.trans hbinder)⟩
  | cons frame frames ih =>
    cases hlookup : (s.store.frameAt pos).lookup name with
    | none =>
      rw [hlookup] at hbinder
      obtain ⟨root, hholds, hcontext⟩ :=
        h.exists_holdsAt (hframes ▸ List.cons_ne_nil frame frames)
      rw [hcontext] at hbinder hframes
      obtain ⟨home, hroot⟩ := ih hbinder (List.cons.inj hframes).2
      exact ⟨home, .outside hlookup hholds hroot⟩
    | some found =>
      rw [hlookup] at hbinder
      exact ⟨pos, .here (hlookup.trans hbinder)⟩

theorem boundAt (h : s.Finished context) {pos : Position} {v : Variable}
    (hv : v.BoundIn (s.store.frameAt pos :: context pos.block)) : s.store.BoundAt v pos := by
  obtain ⟨binder, hbinder, hagrees⟩ := hv
  obtain ⟨home, hbinds⟩ := h.exists_binds hbinder
  exact ⟨home, binder, hbinds, hagrees⟩

/-- A variable that the frames around a block bind is bound where the block stands. -/
theorem exists_boundAt (h : s.Finished context) {b : BlockId} {v : Variable}
    (hv : v.BoundIn (context b)) : ∃ pos, s.store.HoldsAt pos b ∧ s.store.BoundAt v pos := by
  have hne : context b ≠ [] := by
    intro hnil
    obtain ⟨binder, hbinder, _⟩ := hv
    rw [hnil] at hbinder
    cases hbinder
  obtain ⟨pos, hholds, hcontext⟩ := h.exists_holdsAt hne
  rw [hcontext] at hv
  exact ⟨pos, hholds, h.boundAt hv⟩

theorem element_at (h : s.Finished context) {pos : Position} {e : Element}
    (he : s.store.elementAt? pos = some e) :
    e.BoundIn (s.store.frameAt pos :: context pos.block) := by
  obtain ⟨block, hblock, hindex⟩ := Store.elementAt?_eq_some.mp he
  obtain ⟨hk, rfl⟩ := List.getElem?_eq_some_iff.mp hindex
  rw [Store.frameAt_of_get? hblock]
  refine (h.frames.store.element _ block _ _ (block.elements.drop (pos.index + 1)) hblock ?_).1
  rw [List.getElem_cons_drop, List.take_append_drop]

theorem boundAt_of_uses (h : s.Finished context) {pos : Position} {e : Element}
    (he : s.store.elementAt? pos = some e) (hreturned : e.returned = []) {v : Variable}
    (hv : v ∈ e.uses) : s.store.BoundAt v pos :=
  h.boundAt ((h.element_at he).1 hreturned v hv)

theorem binds_of_returned (h : s.Finished context) {pos : Position} {e : Element}
    (he : s.store.elementAt? pos = some e) {content : Value} (hcontent : content ∈ e.returned) :
    ∃ name home binder, content.name = some name ∧ s.store.Binds name pos home binder ∧
      binder.Stands content := by
  obtain ⟨name, binder, hname, hbinder, hstands⟩ := (h.element_at he).2 content hcontent
  obtain ⟨home, hbinds⟩ := h.exists_binds hbinder
  exact ⟨name, home, binder, hname, hbinds, hstands⟩

/-- The header of a loop over an array refers to the array three times and to the counter once. -/
theorem arrayLoop_at (h : s.Finished context) {b : BlockId} {block : Block} {loop : ArrayLoop}
    (hblock : s.store.get? b = some block) (hkind : block.kind = .arrayLoop loop) :
    ∃ pos counter, s.store.HoldsAt pos b ∧ s.store.BoundAt loop.array pos ∧
      loop.counter.toVariable = .ok counter ∧ loop.element.uses = [loop.array, counter] ∧
      block.kind.uses = [loop.array, loop.array, loop.array, counter] := by
  have hheader := h.frames.store.header b block hblock
  rw [hkind] at hheader
  obtain ⟨harray, hnone, hlength, counter, hcounter, helement⟩ := hheader
  obtain ⟨pos, hholds, hbound⟩ := h.exists_boundAt harray
  refine ⟨pos, counter, hholds, hbound, hcounter, helement, ?_⟩
  rw [hkind, BlockKind.uses, hnone, hlength, helement]
  rfl

theorem mapLoop_at (h : s.Finished context) {b : BlockId} {block : Block} {loop : MapLoop}
    (hblock : s.store.get? b = some block) (hkind : block.kind = .mapLoop loop) :
    ∃ pos, s.store.HoldsAt pos b ∧ s.store.BoundAt loop.map pos := by
  have hheader := h.frames.store.header b block hblock
  rw [hkind] at hheader
  exact h.exists_boundAt hheader

/-- What a value in scope refers to is bound where the value was, or is the counter of its loop. -/
theorem exists_origin (h : s.Finished context) {name : String} {pos home : Position}
    {binder : Binder} (hbinds : s.store.Binds name pos home binder) {content : Value}
    (hstands : binder.Stands content) {v : Variable} (hv : v ∈ content.uses) :
    ∃ origin, s.store.Origin home binder origin ∧
      (s.store.BoundAt v origin ∧ s.store.Known v.name pos ∨
        s.store.IsCounter v home.block) := by
  obtain ⟨block, hblock, hlookup⟩ := Store.exists_block_of_lookup hbinds.lookup_home
  have hempty (hnone : content.uses = []) : False := by
    rw [hnone] at hv
    cases hv
  rcases BlockKind.lookup_frame hlookup with hkind | ⟨bound, rfl, hmem⟩
  · rcases BlockKind.mem_bindings hkind with rfl | rfl | ⟨loop, hloop, rfl⟩
    · exact (hempty hstands).elim
    · exact (hempty hstands).elim
    · obtain ⟨root, counter, hholds, hbound, hcounter, huses, _⟩ := h.arrayLoop_at hblock hloop
      obtain rfl : content = loop.element := hstands
      refine ⟨root, .item hblock hloop hholds, ?_⟩
      rw [huses, List.mem_cons, List.mem_singleton] at hv
      rcases hv with rfl | rfl
      · exact Or.inl ⟨hbound, hbinds.known (hbound.known.inside hholds)⟩
      · exact Or.inr ⟨block, loop, hblock, hloop, hcounter⟩
  · obtain rfl : content = bound := hstands
    obtain ⟨i, hi⟩ := List.mem_iff_getElem?.mp hmem
    rw [List.getElem?_take, Option.ite_none_right_eq_some] at hi
    obtain ⟨hlt, hindex⟩ := hi
    have he : s.store.elementAt? ⟨home.block, i⟩ = some (.value content) :=
      Store.elementAt?_eq_some.mpr ⟨block, hblock, hindex⟩
    have hbound : s.store.BoundAt v ⟨home.block, i⟩ := h.boundAt_of_uses he rfl hv
    exact ⟨_, .declared hlt he,
      Or.inl ⟨hbound, hbinds.known (hbound.known.later (Nat.le_of_lt hlt))⟩⟩

/-- Whether everything is bound where it is referred to hangs on the counters of loops and on the
values that are handed back. -/
theorem allBound_iff (h : s.Finished context) :
    s.store.AllBound ↔
      (∀ b v pos, s.store.IsCounter v b → s.store.HoldsAt pos b → s.store.BoundAt v pos) ∧
        ∀ pos e content, s.store.elementAt? pos = some e → content ∈ e.returned →
          ∀ v ∈ content.uses, s.store.BoundAt v pos := by
  constructor
  · intro hall
    constructor
    · rintro b v pos ⟨block, loop, hblock, hkind, hcounter⟩ hholds
      refine hall v pos (.header hblock hholds ?_)
      obtain ⟨_, counter, _, _, hcounter', _, huses⟩ := h.arrayLoop_at hblock hkind
      obtain rfl := Except.ok.inj (hcounter.symm.trans hcounter')
      simp [huses]
    · intro pos e content he hcontent v hv
      exact hall v pos (.element he (Element.uses_of_mem_returned hcontent hv))
  · rintro ⟨hcounters, hreturned⟩ v pos hrefers
    cases hrefers with
    | @element e he hv =>
      rcases Element.uses_cases hv with hnone | ⟨content, hcontent, hv'⟩
      · exact h.boundAt_of_uses he hnone hv
      · exact hreturned pos e content he hcontent v hv'
    | @header b block hblock hholds hv =>
      cases hkind : block.kind with
      | plain | file _ | routine _ | condition _ | evaluation _ =>
        rw [hkind] at hv
        cases hv
      | mapLoop loop =>
        rw [hkind, BlockKind.uses, List.mem_singleton] at hv
        obtain ⟨pos', hholds', hbound⟩ := h.mapLoop_at hblock hkind
        rw [hv, h.linked.holdsAt_unique hholds hholds']
        exact hbound
      | arrayLoop loop =>
        obtain ⟨pos', counter, hholds', hbound, hcounter, _, huses⟩ := h.arrayLoop_at hblock hkind
        obtain rfl := h.linked.holdsAt_unique hholds hholds'
        rw [huses] at hv
        simp only [List.mem_cons, List.not_mem_nil, or_false] at hv
        rcases hv with rfl | rfl | rfl | rfl
        · exact hbound
        · exact hbound
        · exact hbound
        · exact hcounters b _ pos ⟨block, loop, hblock, hkind, hcounter⟩ hholds

end Scopes.Finished

/-- Names mean in the finished blocks of a script what they meant when their line was read. At any
position a name means one thing at most, and only if a line binds it. A variable that an element
refers to is bound before the element; a value that is handed back is the one that its name means
there. What this value refers to is bound where the value was declared, or where the loop stands
whose element it is, and its name still means something; only the counter of the loop may be
unbound. The map or the array of a loop is bound where the loop stands; besides the array, the
header of the loop refers to its counter, once. So everything is bound where it is referred to
exactly if the counters are where their loops stand, and what the values refer to is where these
are handed back. -/
theorem compile_scopes_statically {settings : Settings} {script : Script} {program : Program}
    {log : List LogEntry} (h : compile settings script = (.ok program, log)) :
    ∃ lines, script.lines.mapM (fun line => Line.classify line.2) = .ok lines ∧
      (∀ name pos home home' binder binder', program.store.Binds name pos home binder →
        program.store.Binds name pos home' binder' → home = home' ∧ binder = binder') ∧
      (∀ name pos, program.store.Known name pos →
        name ∈ lines.flatMap Construct.boundNames) ∧
      (∀ pos e, program.store.elementAt? pos = some e → e.returned = [] →
        ∀ v ∈ e.uses, program.store.BoundAt v pos) ∧
      (∀ pos e content, program.store.elementAt? pos = some e → content ∈ e.returned →
        ∃ name home binder, content.name = some name ∧
          program.store.Binds name pos home binder ∧ binder.Stands content ∧
          ∀ v ∈ content.uses, ∃ origin, program.store.Origin home binder origin ∧
            (program.store.BoundAt v origin ∧ program.store.Known v.name pos ∨
              program.store.IsCounter v home.block)) ∧
      (∀ b block loop, program.store.get? b = some block → block.kind = .arrayLoop loop →
        ∃ pos counter, program.store.HoldsAt pos b ∧
          program.store.BoundAt loop.array pos ∧ loop.counter.toVariable = .ok counter ∧
          block.kind.uses = [loop.array, loop.array, loop.array, counter]) ∧
      (∀ b block loop, program.store.get? b = some block → block.kind = .mapLoop loop →
        ∃ pos, program.store.HoldsAt pos b ∧ program.store.BoundAt loop.map pos) ∧
      (program.store.AllBound ↔
        (∀ b v pos, program.store.IsCounter v b → program.store.HoldsAt pos b →
          program.store.BoundAt v pos) ∧
        ∀ pos e content, program.store.elementAt? pos = some e → content ∈ e.returned →
          ∀ v ∈ content.uses, program.store.BoundAt v pos) := by
  obtain ⟨deps, lines, final, hlines, hruns, houter, rfl, _⟩ := compile_ok h
  obtain ⟨hlinked, context, hscoped⟩ := Scopes.scoped_of_runs hruns
  have hfinished : final.Finished context := ⟨hlinked, hscoped, houter⟩
  refine ⟨lines, hlines, fun _ _ _ _ _ _ => hlinked.binds_unique, ?_, ?_, ?_, ?_, ?_,
    hfinished.allBound_iff⟩
  · rintro name pos ⟨home, binder, hbinds⟩
    exact (Scopes.bindsOnly_of_runs hruns).of_binds hbinds
  · intro pos e he hreturned v hv
    exact hfinished.boundAt_of_uses he hreturned hv
  · intro pos e content he hcontent
    obtain ⟨name, home, binder, hname, hbinds, hstands⟩ :=
      hfinished.binds_of_returned he hcontent
    exact ⟨name, home, binder, hname, hbinds, hstands,
      fun v hv => hfinished.exists_origin hbinds hstands hv⟩
  · intro b block loop hblock hkind
    obtain ⟨pos, counter, hholds, hbound, hcounter, _, huses⟩ :=
      hfinished.arrayLoop_at hblock hkind
    exact ⟨pos, counter, hholds, hbound, hcounter, huses⟩
  · intro b block loop hblock hkind
    exact hfinished.mapLoop_at hblock hkind

theorem compile_scopes_statically_shadowing :
    ∃ program log,
      compile {} (.ofSource "a"
        "Int a = 1\nInt b = a\n\x7b\nprint a\nString a = \"x\"\nprint a\nreturn b\n\x7d") =
        (.ok program, log) ∧
      program.store.BoundAt ⟨"a", .integer, none⟩ ⟨1, 0⟩ ∧
      program.store.BoundAt ⟨"a", .string, none⟩ ⟨1, 2⟩ ∧
      ∃ content name home binder, ⟨"a", .integer, none⟩ ∈ content.uses ∧
        content.name = some name ∧ program.store.Binds name ⟨1, 3⟩ home binder ∧
        binder.Stands content := by
  obtain ⟨program, log, h, hstore⟩ := exists_of_compile_any {}
    (.ofSource "a"
      "Int a = 1\nInt b = a\n\x7b\nprint a\nString a = \"x\"\nprint a\nreturn b\n\x7d")
    (fun program =>
      (program.store.elementAt? ⟨1, 0⟩).any (fun e =>
        e.returned.isEmpty && e.uses.contains ⟨"a", .integer, none⟩) &&
      (program.store.elementAt? ⟨1, 2⟩).any (fun e =>
        e.returned.isEmpty && e.uses.contains ⟨"a", .string, none⟩) &&
      (program.store.elementAt? ⟨1, 3⟩).any (fun e =>
        e.returned.any fun content => content.uses.contains ⟨"a", .integer, none⟩))
    (by decide +kernel)
  obtain ⟨_, _, _, _, helement, hreturned, _⟩ := compile_scopes_statically h
  simp only [Bool.and_eq_true, Option.any_eq_true, List.any_eq_true, List.isEmpty_iff,
    List.contains_iff_mem] at hstore
  obtain ⟨⟨⟨first, hfirst, hnone, huses⟩, second, hsecond, hnone', huses'⟩,
    last, hlast, content, hcontent, huses''⟩ := hstore
  obtain ⟨name, home, binder, hname, hbinds, hstands, _⟩ := hreturned _ last content hlast hcontent
  exact ⟨program, log, h, helement _ first hfirst hnone _ huses,
    helement _ second hsecond hnone' _ huses', content, name, home, binder, huses'', hname, hbinds,
    hstands⟩

/-- The counter of a loop is bound nowhere; and a value is handed back that was declared with a
variable whose name means something of another kind by then. -/
theorem compiled_reference_unbound :
    (∃ program log v pos,
      compile { defaultDependencies := [] }
        (.ofSource "a" "Array xs = [1]\nfor x in xs \x7b\n\x7d") = (.ok program, log) ∧
      program.store.RefersAt v pos ∧ ¬ program.store.Known v.name pos) ∧
    ∃ program log v pos,
      compile { defaultDependencies := [] } (.ofSource "a"
        "Int a = 1\nInt b = a\n\x7b\nString a = \"x\"\nreturn b\n\x7d") = (.ok program, log) ∧
      program.store.RefersAt v pos ∧ ¬ program.store.BoundAt v pos := by
  constructor
  · obtain ⟨program, log, h, hstore⟩ := exists_of_compile_any { defaultDependencies := [] }
      (.ofSource "a" "Array xs = [1]\nfor x in xs \x7b\n\x7d")
      (fun program =>
        (program.store.get? 1).any (fun block =>
          block.kind.uses.contains ⟨"__i0", .integer, none⟩) &&
        program.store.rootOf 1 == some 0 && program.store.rootOf 0 == none &&
        (program.store.elementAt? ⟨0, 2⟩).bind Element.child? == some 1 &&
        ((program.store.frameAt ⟨0, 2⟩).lookup "__i0").isNone)
      (by decide +kernel)
    simp only [Bool.and_eq_true, Option.any_eq_true, List.contains_iff_mem, beq_iff_eq,
      Option.isNone_iff_eq_none] at hstore
    obtain ⟨⟨⟨⟨⟨block, hblock, huses⟩, hroot⟩, hfile⟩, hchild⟩, hlookup⟩ := hstore
    refine ⟨program, log, ⟨"__i0", .integer, none⟩, ⟨0, 2⟩, h,
      .header hblock ⟨hroot, hchild⟩ huses, ?_⟩
    rintro ⟨home, binder, hbinds⟩
    cases hbinds with
    | here hsome => cases hlookup.symm.trans hsome
    | outside _ hholds _ => cases hfile.symm.trans hholds.1
  · obtain ⟨program, log, h, hstore⟩ := exists_of_compile_any { defaultDependencies := [] }
      (.ofSource "a" "Int a = 1\nInt b = a\n\x7b\nString a = \"x\"\nreturn b\n\x7d")
      (fun program =>
        (program.store.elementAt? ⟨1, 1⟩).any (fun e =>
          e.uses.contains ⟨"a", .integer, none⟩) &&
        ((program.store.frameAt ⟨1, 1⟩).lookup "a").any (fun binder =>
          !decide (Binder.Agrees ⟨"a", .integer, none⟩ binder)))
      (by decide +kernel)
    simp only [Bool.and_eq_true, Option.any_eq_true, List.contains_iff_mem, Bool.not_eq_true',
      decide_eq_false_iff_not] at hstore
    obtain ⟨⟨e, he, huses⟩, found, hfound, hdisagrees⟩ := hstore
    refine ⟨program, log, ⟨"a", .integer, none⟩, ⟨1, 1⟩, h, .element he huses, ?_⟩
    rintro ⟨home, binder, hbinds, hagrees⟩
    cases hbinds with
    | here hsome =>
      obtain rfl := Option.some.inj (hfound.symm.trans hsome)
      exact hdisagrees hagrees
    | outside hnone _ _ => cases hfound.symm.trans hnone

end LineScript
