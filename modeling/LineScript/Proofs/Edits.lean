import LineScript.Proofs.Success

/-!
# What edits do to a store

Blocks are looked at through `Store.get?` only. A successful edit replaces a block, or puts new
blocks behind the ones that are there; the lemmas below give the store after each edit in these
two forms, together with everything the edit has checked.
-/
namespace LineScript

namespace Store

variable (s : Store)

/-- The store with another block at the number. -/
def replace (id : BlockId) (block : Block) : Store :=
  s.update id fun _ => block

/-- The store with new blocks behind the ones that are there. -/
def extend (made : List Block) (fresh : Nat) : Store :=
  ⟨s.blocks ++ made.toArray, fresh⟩

theorem get?_update (id i : BlockId) (change : Block → Block) :
    (s.update id change).get? i = if id = i then (s.get? i).map change else s.get? i := by
  unfold Store.update Store.get?
  exact Array.getElem?_modify

@[simp] theorem size_update (id : BlockId) (change : Block → Block) :
    (s.update id change).size = s.size :=
  Array.size_modify

@[simp] theorem size_replace (id : BlockId) (block : Block) : (s.replace id block).size = s.size :=
  s.size_update id _

theorem lt_size_of_get? {s : Store} {id : BlockId} {block : Block} (h : s.get? id = some block) :
    id < s.size :=
  (Array.getElem?_eq_some_iff.mp h).1

theorem exists_get? {s : Store} {id : Nat} (h : id < s.size) : ∃ block, s.get? id = some block :=
  ⟨_, Array.getElem?_eq_getElem h⟩

theorem get?_replace_self {s : Store} {id : Nat} (h : id < s.size) (block : Block) :
    (s.replace id block).get? id = some block := by
  obtain ⟨old, hold⟩ := exists_get? h
  rw [replace, get?_update, if_pos rfl, hold]
  rfl

theorem get?_replace_of_ne {id i : BlockId} (h : i ≠ id) (block : Block) :
    (s.replace id block).get? i = s.get? i := by
  rw [replace, get?_update, if_neg h.symm]

theorem ext_get? {s t : Store} (hfresh : s.fresh = t.fresh) (h : ∀ i, s.get? i = t.get? i) :
    s = t := by
  cases s
  cases t
  simp only [Store.mk.injEq]
  exact ⟨Array.ext_getElem? h, hfresh⟩

theorem update_eq_replace {s : Store} {id : BlockId} {block : Block} (h : s.get? id = some block)
    (change : Block → Block) : s.update id change = s.replace id (change block) := by
  refine ext_get? rfl ?_
  intro i
  rw [replace, get?_update, get?_update]
  by_cases hi : id = i
  · subst hi
    rw [if_pos rfl, if_pos rfl, h]
    rfl
  · rw [if_neg hi, if_neg hi]

theorem replace_self {s : Store} {id : BlockId} {block : Block} (h : s.get? id = some block) :
    s.replace id block = s := by
  refine ext_get? rfl ?_
  intro i
  by_cases hi : i = id
  · rw [hi, get?_replace_self (lt_size_of_get? h), h]
  · exact s.get?_replace_of_ne hi block

theorem replace_replace (id : BlockId) (first second : Block) :
    (s.replace id first).replace id second = s.replace id second := by
  refine ext_get? rfl ?_
  intro i
  simp only [replace, get?_update]
  split_ifs with hi
  · simp only [Option.map_map]
    rfl
  · rfl

theorem get?_extend (made : List Block) (fresh i : Nat) :
    (s.extend made fresh).get? i = if i < s.size then s.get? i else made[i - s.size]? := by
  unfold extend get? size
  rw [Array.getElem?_append]
  simp only [List.getElem?_toArray]

theorem get?_extend_of_lt {s : Store} {i : Nat} (h : i < s.size) (made : List Block)
    (fresh : Nat) : (s.extend made fresh).get? i = s.get? i := by
  rw [get?_extend, if_pos h]

theorem get?_extend_new (made : List Block) (fresh k : Nat) :
    (s.extend made fresh).get? (s.size + k) = made[k]? := by
  rw [get?_extend, if_neg (by omega), Nat.add_sub_cancel_left]

@[simp] theorem size_extend (made : List Block) (fresh : Nat) :
    (s.extend made fresh).size = s.size + made.length := by
  simp [extend, size]

/-- A change of a new block may as well be made before the block is added. -/
theorem update_extend (front back : List Block) (block : Block) (fresh : Nat)
    (change : Block → Block) :
    (s.extend (front ++ block :: back) fresh).update (s.size + front.length) change =
      s.extend (front ++ change block :: back) fresh := by
  refine ext_get? rfl ?_
  intro (i : Nat)
  rw [get?_update, get?_extend, get?_extend]
  by_cases hi : s.size + front.length = i
  · subst hi
    have hnot : ¬ s.size + front.length < s.size := by omega
    simp [hnot]
  · rw [if_neg hi]
    by_cases hlt : i < s.size
    · rw [if_pos hlt, if_pos hlt]
    · rw [if_neg hlt, if_neg hlt]
      have hne : i - s.size ≠ front.length := by omega
      simp only [List.getElem?_append, List.getElem?_cons]
      split
      · rfl
      · have hzero : i - s.size - front.length ≠ 0 := by omega
        rw [if_neg hzero, if_neg hzero]

theorem get?_extend_single (block : Block) (fresh : Nat) :
    (s.extend [block] fresh).get? s.size = some block :=
  s.get?_extend_new [block] fresh 0

theorem replace_extend_single (block other : Block) (fresh : Nat) :
    (s.extend [block] fresh).replace s.size other = s.extend [other] fresh :=
  s.update_extend [] [] block fresh fun _ => other

theorem get?_replace_cases {s : Store} {id i : BlockId} {block found : Block}
    (h : (s.replace id block).get? i = some found) : found = block ∨ s.get? i = some found := by
  by_cases hi : i = id
  · have hlt := lt_size_of_get? h
    rw [size_replace] at hlt
    rw [hi, get?_replace_self (hi ▸ hlt)] at h
    exact Or.inl (Option.some.inj h).symm
  · rw [s.get?_replace_of_ne hi] at h
    exact Or.inr h

theorem get?_extend_cases {s : Store} {made : List Block} {fresh i : Nat} {found : Block}
    (h : (s.extend made fresh).get? i = some found) : found ∈ made ∨ s.get? i = some found := by
  rw [get?_extend] at h
  split_ifs at h
  · exact Or.inr h
  · exact Or.inl (List.mem_of_getElem? h)

theorem extend_extend (first second : List Block) (fresh fresh' : Nat) :
    (s.extend first fresh).extend second fresh' = s.extend (first ++ second) fresh' := by
  simp [extend]

end Store

/-- Elements that a block takes without a check of their own. -/
def Element.isPlain : Element → Bool
  | .block _ => false
  | .statement (.dependency _) => false
  | .statement (.giveBack _) => false
  | .statement (.package _) => false
  | .statement (.signal _ _) => false
  | _ => true

/-- The kind of a block after a return in it. -/
def BlockKind.close (given : Return) : BlockKind → BlockKind
  | .routine info => .routine { info with returned := some given.returned }
  | other => other

theorem Routine.close_ok {routine closed : Routine} {given : Return}
    (h : routine.close given = .ok closed) :
    (∀ declared, routine.declared = some declared →
      Routine.conforms declared given.returned = true) ∧
      closed = { routine with returned := some given.returned } := by
  unfold Routine.close at h
  cases hdeclared : routine.declared with
  | none =>
    simp only [hdeclared, Except.ok.injEq] at h
    exact ⟨by simp, h.symm⟩
  | some declared =>
    simp only [hdeclared] at h
    split_ifs at h with hconforms
    · refine ⟨?_, (Except.ok.inj h).symm⟩
      rintro _ ⟨rfl⟩
      exact hconforms

namespace Edit

variable {s t : Store} {parent : BlockId}

theorem alloc_ok {kind : BlockKind} {id : BlockId} (h : Succeeds (alloc kind) s id t) :
    id = s.size ∧ t = s.extend [Block.ofKind kind] s.fresh := by
  unfold alloc at h
  rw [succeeds_get_bind, succeeds_set_bind, succeeds_pure] at h
  obtain ⟨rfl, rfl⟩ := h
  exact ⟨rfl, by simp [Store.extend]⟩

theorem freshName_ok {stem name : String} (h : Succeeds (freshName stem) s name t) :
    name = s!"__{stem}{s.fresh}" ∧ t = ⟨s.blocks, s.fresh + 1⟩ := by
  unfold freshName at h
  rw [succeeds_get_bind, succeeds_set_bind, succeeds_pure] at h
  exact ⟨h.1.symm, h.2.symm⟩

/-- Nothing is added to a block that is not there or that a return has closed. -/
theorem append_ok_iff (element : Element) :
    Succeeds (append parent element) s () t ↔
      ∃ block, s.get? parent = some block ∧ block.closed = false ∧
        Succeeds (place parent block element) s () t := by
  unfold append
  rw [succeeds_requireBlock_bind]
  apply exists_congr
  intro block
  apply and_congr_right
  intro _
  cases hclosed : block.closed with
  | true =>
    simp only [if_true, Bool.true_eq_false, false_and, iff_false]
    exact succeeds_throw_bind _ _ _ _ _
  | false => simp only [Bool.false_eq_true, if_false, true_and]

theorem append_plain_ok {element : Element} (hplain : element.isPlain = true)
    (h : Succeeds (append parent element) s () t) :
    ∃ block, s.get? parent = some block ∧ block.closed = false ∧
      t = s.replace parent { block with elements := block.elements ++ [element] } := by
  obtain ⟨block, hblock, hopen, h⟩ := (append_ok_iff element).mp h
  refine ⟨block, hblock, hopen, ?_⟩
  have hpush : s.push parent element = t := by
    cases element with
    | block _ => cases hplain
    | text _ | value _ | method _ => exact (succeeds_modify _ _ _ _).mp h
    | statement content =>
      cases content with
      | dependency _ | giveBack _ | package _ | signal _ _ => cases hplain
      | binding _ | print _ | assign _ | exit _ => exact (succeeds_modify _ _ _ _).mp h
  rw [← hpush, Store.push, Store.update_eq_replace hblock]

theorem append_return_ok {given : Return}
    (h : Succeeds (append parent (.statement (.giveBack given))) s () t) :
    ∃ block, s.get? parent = some block ∧ block.closed = false ∧
      (∀ routine declared, block.kind = .routine routine → routine.declared = some declared →
        Routine.conforms declared given.returned = true) ∧
      t = s.replace parent
        { block with
          kind := block.kind.close given
          elements := block.elements ++ [.statement (.giveBack given)]
          closed := true } := by
  obtain ⟨block, hblock, hopen, h⟩ := (append_ok_iff _).mp h
  refine ⟨block, hblock, hopen, ?_⟩
  change Succeeds (appendReturn parent block given) s () t at h
  unfold appendReturn at h
  cases hkind : block.kind with
  | routine info =>
    simp only [hkind] at h
    rw [succeeds_ofExcept_bind] at h
    obtain ⟨closed, hclose, h⟩ := h
    rw [succeeds_pure_bind, succeeds_modify] at h
    obtain ⟨hconforms, rfl⟩ := Routine.close_ok hclose
    rw [Store.update_eq_replace hblock] at h
    refine ⟨?_, h.symm⟩
    rintro _ declared ⟨rfl⟩ hdeclared
    exact hconforms declared hdeclared
  | plain | file _ | condition _ | arrayLoop _ | mapLoop _ | evaluation _ =>
    simp only [hkind, pure_bind, succeeds_modify] at h
    refine ⟨by simp, ?_⟩
    rw [← h, Store.update_eq_replace hblock]
    rfl

theorem append_dependency_ok {d : Dependency}
    (h : Succeeds (append parent (.statement (.dependency d))) s () t) :
    ∃ block info, s.get? parent = some block ∧ block.closed = false ∧ block.kind = .file info ∧
      t = s.replace parent
        { block with
          elements :=
            if info.headerDone then .statement (.dependency d) :: block.elements
            else block.elements ++ [.statement (.dependency d)] } := by
  obtain ⟨block, hblock, hopen, h⟩ := (append_ok_iff _).mp h
  change Succeeds (appendDependency parent block d) s () t at h
  unfold appendDependency at h
  cases hkind : block.kind with
  | file info =>
    refine ⟨block, info, hblock, hopen, hkind, ?_⟩
    simp only [hkind] at h
    split_ifs at h with hdone
    · rw [← (succeeds_modify _ _ _ _).mp h, Store.update_eq_replace hblock, if_pos hdone]
    · rw [← (succeeds_modify _ _ _ _).mp h, Store.push, Store.update_eq_replace hblock,
        if_neg hdone]
  | plain | routine _ | condition _ | arrayLoop _ | mapLoop _ | evaluation _ =>
    simp only [hkind] at h
    exact absurd h (succeeds_throw _ _ _ _)

theorem append_package_ok {path : String}
    (h : Succeeds (append parent (.statement (.package path))) s () t) :
    ∃ block info, s.get? parent = some block ∧ block.closed = false ∧ block.kind = .file info ∧
      info.isModule = true ∧
      t = s.replace parent
        { block with
          kind := .file { info with package := some path }
          elements := block.elements ++ [.statement (.package path)] } := by
  obtain ⟨block, hblock, hopen, h⟩ := (append_ok_iff _).mp h
  change Succeeds (appendPackage parent block path) s () t at h
  unfold appendPackage at h
  cases hkind : block.kind with
  | file info =>
    simp only [hkind] at h
    split_ifs at h with hmodule
    · refine ⟨block, info, hblock, hopen, hkind, hmodule, ?_⟩
      rw [← (succeeds_modify _ _ _ _).mp h, Store.update_eq_replace hblock]
    · exact absurd h (succeeds_throw _ _ _ _)
  | plain | routine _ | condition _ | arrayLoop _ | mapLoop _ | evaluation _ =>
    simp only [hkind] at h
    exact absurd h (succeeds_throw _ _ _ _)

/-- A block that is added to itself or to its owner stays where it is. -/
theorem append_block_ok {child : BlockId} (h : Succeeds (append parent (.block child)) s () t) :
    ∃ block, s.get? parent = some block ∧ block.closed = false ∧
      (child = parent ∧ t = s ∨
        ∃ inner, s.get? child = some inner ∧ child ≠ parent ∧ inner.kind.isFile = false ∧
          (inner.root = some parent ∧ t = s ∨
            inner.root = none ∧ s.isAncestor child parent = false ∧
              t = (s.replace child { inner with root := some parent }).replace parent
                { block with elements := block.elements ++ [.block child] })) := by
  obtain ⟨block, hblock, hopen, h⟩ := (append_ok_iff _).mp h
  refine ⟨block, hblock, hopen, ?_⟩
  change Succeeds (appendBlock parent child) s () t at h
  unfold appendBlock at h
  by_cases hself : child = parent
  · simp only [hself, if_true, succeeds_pure] at h
    exact Or.inl ⟨hself, h.2.symm⟩
  simp only [hself, if_false] at h
  rw [succeeds_requireBlock_bind] at h
  obtain ⟨inner, hinner, h⟩ := h
  cases hfile : inner.kind.isFile with
  | true =>
    simp only [hfile, if_true] at h
    exact absurd h (succeeds_throw_bind _ _ _ _ _)
  | false =>
    refine Or.inr ⟨inner, hinner, hself, hfile, ?_⟩
    simp only [hfile, Bool.false_eq_true, if_false] at h
    cases hroot : inner.root with
    | some root =>
      simp only [hroot] at h
      split_ifs at h with heq
      · exact Or.inl ⟨by rw [heq], ((succeeds_pure _ _ _ _).mp h).2.symm⟩
      · exact absurd h (succeeds_throw _ _ _ _)
    | none =>
      simp only [hroot] at h
      rw [succeeds_get_bind] at h
      cases hancestor : s.isAncestor child parent with
      | true =>
        simp only [hancestor, if_true] at h
        exact absurd h (succeeds_throw_bind _ _ _ _ _)
      | false =>
        simp only [hancestor, Bool.false_eq_true, if_false, succeeds_modify] at h
        refine Or.inr ⟨rfl, rfl, ?_⟩
        have hparent : (s.replace child { inner with root := some parent }).get? parent =
            some block := by
          rw [Store.get?_replace_of_ne _ (Ne.symm hself), hblock]
        rw [← h, Store.setRoot, Store.update_eq_replace hinner, Store.push, Store.update_eq_replace hparent]

theorem append_signal_ok {signal : Signal} {routine : BlockId}
    (h : Succeeds (append parent (.statement (.signal signal routine))) s () t) :
    ∃ block handler, s.get? parent = some block ∧ block.closed = false ∧
      s.get? routine = some handler ∧ handler.kind.isRoutine = true ∧
      s.isAncestor routine parent = false ∧
      t = (if handler.root.isNone then s.setRoot routine parent else s).push parent
        (.statement (.signal signal routine)) := by
  obtain ⟨block, hblock, hopen, h⟩ := (append_ok_iff _).mp h
  change Succeeds (appendSignal parent signal routine) s () t at h
  unfold appendSignal at h
  rw [succeeds_requireBlock_bind] at h
  obtain ⟨handler, hhandler, h⟩ := h
  refine ⟨block, handler, hblock, hopen, hhandler, ?_⟩
  cases hroutine : handler.kind.isRoutine with
  | false =>
    simp only [hroutine, Bool.not_false, if_true] at h
    exact absurd h (succeeds_throw_bind _ _ _ _ _)
  | true =>
    simp only [hroutine, Bool.not_true, Bool.false_eq_true, if_false] at h
    rw [succeeds_get_bind] at h
    cases hancestor : s.isAncestor routine parent with
    | true =>
      simp only [hancestor, if_true] at h
      exact absurd h (succeeds_throw_bind _ _ _ _ _)
    | false =>
      simp only [hancestor, Bool.false_eq_true, if_false] at h
      exact ⟨rfl, rfl, ((succeeds_modify _ _ _ _).mp h).symm⟩

theorem appendPreamble_ok {file : BlockId} {preamble : List String} {block : Block}
    {info : FileInfo} (hblock : s.get? file = some block) (hkind : block.kind = .file info)
    (hheader : info.headerDone = false) (h : Succeeds (appendPreamble file preamble) s () t) :
    ∃ deps : List Dependency, preamble.mapM (fun path => Dependency.make path none) = .ok deps ∧
      t = s.replace file
        { block with
          elements := block.elements ++ deps.map fun d => .statement (.dependency d) } := by
  induction preamble generalizing s block with
  | nil =>
    obtain rfl := ((succeeds_pure _ _ _ _).mp h).2
    refine ⟨[], rfl, ?_⟩
    simp only [List.map_nil, List.append_nil]
    exact (Store.replace_self hblock).symm
  | cons path rest ih =>
    unfold appendPreamble at h
    rw [succeeds_ofExcept_bind] at h
    obtain ⟨d, hd, h⟩ := h
    rw [succeeds_bind] at h
    obtain ⟨⟨⟩, u, happend, h⟩ := h
    obtain ⟨block', info', hblock', _, hkind', rfl⟩ := append_dependency_ok happend
    obtain rfl := Option.some.inj (hblock.symm.trans hblock')
    obtain rfl := BlockKind.file.inj (hkind.symm.trans hkind')
    have hlt := Store.lt_size_of_get? hblock
    simp only [hheader, Bool.false_eq_true, if_false] at h
    obtain ⟨deps, hdeps, rfl⟩ := ih (Store.get?_replace_self hlt _) (by exact hkind) h
    refine ⟨d :: deps, ?_, ?_⟩
    · rw [List.mapM_cons, hd, hdeps]
      rfl
    · rw [Store.replace_replace]
      simp only [List.append_assoc, List.map_cons, List.singleton_append]

theorem newFile_ok {name : String} {isModule : Bool} {preamble : List String} {id : BlockId}
    (h : Succeeds (newFile name isModule preamble) s id t) :
    id = s.size ∧ ∃ deps : List Dependency,
      preamble.mapM (fun path => Dependency.make path none) = .ok deps ∧
      t = s.extend
        [{ kind := .file ⟨name, isModule, true, none⟩
           elements := deps.map fun d => .statement (.dependency d)
           closed := false
           root := none }] s.fresh := by
  unfold newFile at h
  rw [succeeds_bind] at h
  obtain ⟨id', u, halloc, h⟩ := h
  obtain ⟨rfl, rfl⟩ := alloc_ok halloc
  rw [succeeds_bind] at h
  obtain ⟨⟨⟩, u, hpreamble, h⟩ := h
  rw [succeeds_modify_bind, succeeds_pure] at h
  obtain ⟨rfl, rfl⟩ := h
  obtain ⟨deps, hdeps, rfl⟩ := appendPreamble_ok (s.get?_extend_single _ _) rfl rfl hpreamble
  refine ⟨rfl, deps, hdeps, ?_⟩
  rw [Store.replace_extend_single, Store.update_eq_replace (s.get?_extend_single _ _),
    Store.replace_extend_single]
  rfl

theorem newRoutine_ok {name : Option String} {parameters : List BoundParameter}
    {mode : BindingMode} {declared : Option Kind} {id : BlockId}
    (h : Succeeds (newRoutine name parameters mode declared) s id t) :
    id = s.size ∧
      t = s.extend
        [{ kind := .routine ⟨name, parameters.map BoundParameter.name, mode, declared, none⟩
           elements :=
            if parameters.isEmpty then [] else [.statement (.binding ⟨parameters, mode⟩)]
           closed := false
           root := none }] s.fresh := by
  unfold newRoutine at h
  rw [succeeds_bind] at h
  obtain ⟨id', u, halloc, h⟩ := h
  obtain ⟨rfl, rfl⟩ := alloc_ok halloc
  cases hempty : parameters.isEmpty with
  | true =>
    simp only [hempty, Bool.not_true, Bool.false_eq_true, if_false, succeeds_pure] at h
    obtain ⟨rfl, rfl⟩ := h
    exact ⟨rfl, rfl⟩
  | false =>
    simp only [hempty, Bool.not_false, if_true] at h
    rw [succeeds_bind] at h
    obtain ⟨⟨⟩, v, happend, h⟩ := h
    obtain ⟨rfl, rfl⟩ := (succeeds_pure _ _ _ _).mp h
    obtain ⟨block, hblock, _, rfl⟩ := append_plain_ok rfl happend
    rw [s.get?_extend_single] at hblock
    obtain rfl := Option.some.inj hblock
    rw [Store.replace_extend_single]
    exact ⟨rfl, rfl⟩

theorem newCondition_ok {branch : Branch} {test : Option Test} {id : BlockId}
    (h : Succeeds (newCondition branch test) s id t) :
    ∃ condition, Condition.make branch test = .ok condition ∧ id = s.size ∧
      t = s.extend [Block.ofKind (.condition condition)] s.fresh := by
  unfold newCondition at h
  rw [succeeds_ofExcept_bind] at h
  obtain ⟨condition, hcondition, h⟩ := h
  exact ⟨condition, hcondition, alloc_ok h⟩

theorem newArrayLoop_ok {array : Value} {element : String} {id : BlockId} {item : Value}
    (h : Succeeds (newArrayLoop array element) s (id, item) t) :
    ∃ looped counter length counterVariable, array.kind = .array ∧
      array.toVariable = .ok looped ∧
      Value.make .integer (some s!"__i{s.fresh}") none (.literal (.ofInt 0)) = .ok counter ∧
      Value.make .scalar (some s!"__len{s.fresh + 1}") none (.method (.on looped "size" [])) =
        .ok length ∧
      counter.toVariable = .ok counterVariable ∧
      Value.make (array.element.getD .scalar) (some element) none
        (.method (.on looped "get" [.bound counterVariable])) = .ok item ∧
      id = s.size ∧
      t = s.extend [Block.ofKind (.arrayLoop ⟨looped, counter, length, item⟩)] (s.fresh + 2) := by
  unfold newArrayLoop at h
  by_cases hkind : array.kind = .array
  · simp only [hkind, ne_eq, not_true_eq_false, if_false] at h
    rw [succeeds_ofExcept_bind] at h
    obtain ⟨looped, hlooped, h⟩ := h
    rw [succeeds_bind] at h
    obtain ⟨_, u, hi, h⟩ := h
    obtain ⟨rfl, rfl⟩ := freshName_ok hi
    rw [succeeds_bind] at h
    obtain ⟨_, u, hlen, h⟩ := h
    obtain ⟨rfl, rfl⟩ := freshName_ok hlen
    simp only [succeeds_ofExcept_bind] at h
    obtain ⟨counter, hcounter, length, hlength, variable', hvariable, item', hitem, h⟩ := h
    rw [succeeds_bind] at h
    obtain ⟨id', u, halloc, h⟩ := h
    obtain ⟨rfl, rfl⟩ := alloc_ok halloc
    obtain ⟨hpair, rfl⟩ := (succeeds_pure _ _ _ _).mp h
    obtain ⟨rfl, rfl⟩ := Prod.mk.inj hpair
    exact ⟨looped, counter, length, variable', hkind, hlooped, hcounter, hlength, hvariable,
      hitem, rfl, rfl⟩
  · simp only [hkind, ne_eq, not_false_eq_true, if_true] at h
    exact absurd h (succeeds_throw_bind _ _ _ _ _)

theorem newMapLoop_ok {map : Value} {element : String} {id : BlockId}
    (h : Succeeds (newMapLoop map element) s id t) :
    ∃ looped, map.kind = .map ∧ map.toVariable = .ok looped ∧ id = s.size ∧
      t = s.extend [Block.ofKind (.mapLoop ⟨looped, element⟩)] s.fresh := by
  unfold newMapLoop at h
  by_cases hkind : map.kind = .map
  · simp only [hkind, ne_eq, not_true_eq_false, if_false] at h
    rw [succeeds_ofExcept_bind] at h
    obtain ⟨looped, hlooped, h⟩ := h
    exact ⟨looped, hkind, hlooped, alloc_ok h⟩
  · simp only [hkind, ne_eq, not_false_eq_true, if_true] at h
    exact absurd h (succeeds_throw_bind _ _ _ _ _)

/-- The handler is made first and belongs to the block that is made after it. -/
theorem newEvaluation_ok {id : BlockId} (h : Succeeds newEvaluation s id t) :
    ∃ condition, Condition.make .ifTrue (some (.raw "$@")) = .ok condition ∧ id = s.size + 1 ∧
      t = s.extend
        [{ kind := .condition condition
           elements := [.statement (.print ⟨.raw "$@", true⟩)]
           closed := false
           root := some (s.size + 1) },
         Block.ofKind (.evaluation s.size)] s.fresh := by
  unfold newEvaluation at h
  rw [succeeds_bind] at h
  obtain ⟨handler, u, hhandler, h⟩ := h
  obtain ⟨condition, hcondition, rfl, rfl⟩ := newCondition_ok hhandler
  rw [succeeds_bind] at h
  obtain ⟨⟨⟩, u, happend, h⟩ := h
  obtain ⟨block, hblock, _, rfl⟩ := append_plain_ok rfl happend
  rw [s.get?_extend_single] at hblock
  obtain rfl := Option.some.inj hblock
  rw [Store.replace_extend_single, succeeds_bind] at h
  obtain ⟨id', u, halloc, h⟩ := h
  obtain ⟨rfl, rfl⟩ := alloc_ok halloc
  rw [succeeds_modify_bind, succeeds_pure] at h
  obtain ⟨rfl, rfl⟩ := h
  refine ⟨condition, hcondition, by rw [Store.size_extend]; rfl, ?_⟩
  rw [Store.extend_extend, Store.setRoot, Store.size_extend]
  exact s.update_extend [] [Block.ofKind (.evaluation s.size)] _ s.fresh fun block =>
    { block with root := some (s.size + 1) }

end Edit

end LineScript
