import LineScript.Proofs.Shifted

/-!
# Stores that echo another

A store echoes another if it has the same blocks behind some blocks of its own, with shifted
numbers, and with elements that differ as a relation allows. An edit that succeeds on a store
succeeds with shifted numbers on a store that echoes it, and leads to a store that echoes the new
one. `Simulates` is the form of these statements, with one lemma for each way of putting
computations together.
-/
namespace LineScript

/-- If the first computation succeeds in the first state, the second does so in the second one.
The results are related then, and so are the states after it. -/
def Simulates {σ α β : Type} (Rel : σ → σ → Prop) (Res : α → β → Prop)
    (m : ExceptT Fault (StateM σ) α) (m' : ExceptT Fault (StateM σ) β) (s t : σ) : Prop :=
  ∀ a s', Succeeds m s a s' → ∃ b t', Succeeds m' t b t' ∧ Res a b ∧ Rel s' t'

namespace Simulates

variable {σ α β γ δ : Type} {Rel : σ → σ → Prop} {s t : σ}

theorem pure {Res : α → β → Prop} {a : α} {b : β} (hres : Res a b) (h : Rel s t) :
    Simulates Rel Res (pure a) (pure b) s t := by
  rintro _ _ hpure
  obtain ⟨rfl, rfl⟩ := (succeeds_pure _ _ _ _).mp hpure
  exact ⟨b, t, (succeeds_pure _ _ _ _).mpr ⟨rfl, rfl⟩, hres, h⟩

theorem throw {Res : α → β → Prop} (fault : Fault) (m' : ExceptT Fault (StateM σ) β) :
    Simulates Rel Res (throw fault : ExceptT Fault (StateM σ) α) m' s t := by
  intro _ _ hthrow
  exact absurd hthrow (succeeds_throw _ _ _ _)

theorem throw_bind {Res : γ → β → Prop} (fault : Fault) (f : α → ExceptT Fault (StateM σ) γ)
    (m' : ExceptT Fault (StateM σ) β) :
    Simulates Rel Res (MonadExcept.throw fault >>= f) m' s t := by
  intro _ _ hthrow
  exact absurd hthrow (succeeds_throw_bind _ _ _ _ _)

theorem bind {Res : α → β → Prop} {Res' : γ → δ → Prop} {m : ExceptT Fault (StateM σ) α}
    {m' : ExceptT Fault (StateM σ) β} {f : α → ExceptT Fault (StateM σ) γ}
    {f' : β → ExceptT Fault (StateM σ) δ} (hm : Simulates Rel Res m m' s t)
    (hf : ∀ a b s' t', Res a b → Rel s' t' → Simulates Rel Res' (f a) (f' b) s' t') :
    Simulates Rel Res' (m >>= f) (m' >>= f') s t := by
  intro c s'' h
  obtain ⟨a, s', hfirst, hrest⟩ := (succeeds_bind _ _ _ _ _).mp h
  obtain ⟨b, t', hfirst', hres, hrel⟩ := hm a s' hfirst
  obtain ⟨d, t'', hrest', hres', hrel'⟩ := hf a b s' t' hres hrel c s'' hrest
  exact ⟨d, t'', (succeeds_bind _ _ _ _ _).mpr ⟨b, t', hfirst', hrest'⟩, hres', hrel'⟩

theorem get_bind {Res : α → β → Prop} {f : σ → ExceptT Fault (StateM σ) α}
    {f' : σ → ExceptT Fault (StateM σ) β} (hf : Simulates Rel Res (f s) (f' t) s t) :
    Simulates Rel Res (get >>= f) (get >>= f') s t := by
  intro a s' h
  obtain ⟨b, t', ht', hres, hrel⟩ := hf a s' ((succeeds_get_bind _ _ _ _).mp h)
  exact ⟨b, t', (succeeds_get_bind _ _ _ _).mpr ht', hres, hrel⟩

theorem modify {f f' : σ → σ} (h : Rel (f s) (f' t)) :
    Simulates Rel Eq (modify f) (modify f') s t := by
  intro _ s' hmodify
  obtain rfl := (succeeds_modify _ _ _ _).mp hmodify
  exact ⟨_, f' t, (succeeds_modify _ _ _ _).mpr rfl, rfl, h⟩

theorem ite {Res : α → β → Prop} {p q : Prop} [Decidable p] [Decidable q]
    {m n : ExceptT Fault (StateM σ) α} {m' n' : ExceptT Fault (StateM σ) β} (hpq : q ↔ p)
    (hm : p → Simulates Rel Res m m' s t) (hn : ¬ p → Simulates Rel Res n n' s t) :
    Simulates Rel Res (if p then m else n) (if q then m' else n') s t := by
  by_cases hp : p
  · rw [if_pos hp, if_pos (hpq.mpr hp)]
    exact hm hp
  · rw [if_neg hp, if_neg (mt hpq.mp hp)]
    exact hn hp

/-- A check that the first computation passes is passed by the second. -/
theorem check {Res : α → β → Prop} {p q : Prop} [Decidable p] [Decidable q] {fault : Fault}
    {f : γ → ExceptT Fault (StateM σ) α} {n : ExceptT Fault (StateM σ) α}
    {m' n' : ExceptT Fault (StateM σ) β} (hpq : q → p)
    (hn : ¬ p → Simulates Rel Res n n' s t) :
    Simulates Rel Res (if p then MonadExcept.throw fault >>= f else n) (if q then m' else n')
      s t := by
  by_cases hp : p
  · rw [if_pos hp]
    exact throw_bind fault f _
  · rw [if_neg hp, if_neg (mt hpq hp)]
    exact hn hp

end Simulates

/-- A block with shifted numbers, and with elements that are related to those of the first. -/
structure Block.Echoes (k : Nat) (R : List Element → List Element → Prop) (b b' : Block) :
    Prop where
  kind : b'.kind = b.kind.shift k
  closed : b'.closed = b.closed
  root : b'.root = b.root.map (· + k)
  elements : R (b.elements.map (Element.shift k)) b'.elements

/-- Where blocks and scopes are echoed, and what may differ: the blocks in front of the echoed ones,
the scopes around the echoed ones with their path, and a relation between the elements of blocks.
The relation stays as both blocks grow, does not show in what comes last, and holds of new
blocks. -/
structure Echo where
  under : List Block
  around : List Scope
  base : ScopePath
  bound : Nat
  Rel : BlockId → List Element → List Element → Prop
  bare : ∀ scope ∈ around, scope.values = [] ∧ scope.routines = []
  made : ∀ (id : Nat) es, bound ≤ id → Rel id es es
  snoc : ∀ id es es' e, Rel id es es' → Rel id (es ++ [e]) (es' ++ [e])
  last : ∀ id es es', Rel id es es' → lastBlock? es' = lastBlock? es

/-- No blocks in front and no scopes around: blocks differ in their elements only. -/
def Echo.inPlace (bound : Nat) (Rel : BlockId → List Element → List Element → Prop)
    (made : ∀ (id : Nat) es, bound ≤ id → Rel id es es)
    (snoc : ∀ id es es' e, Rel id es es' → Rel id (es ++ [e]) (es' ++ [e]))
    (last : ∀ id es es', Rel id es es' → lastBlock? es' = lastBlock? es) : Echo where
  under := []
  around := []
  base := []
  bound := bound
  Rel := Rel
  bare := by simp
  made := made
  snoc := snoc
  last := last

/-- By how much the numbers of blocks differ. -/
def Echo.shift (E : Echo) : Nat :=
  E.under.length

theorem Block.echoes_shift {k : Nat} {R : List Element → List Element → Prop} (b : Block)
    (hR : R (b.elements.map (Element.shift k)) (b.elements.map (Element.shift k))) :
    b.Echoes k R (b.shift k) :=
  ⟨rfl, rfl, rfl, hR⟩

variable {E : Echo}

namespace Store

/-- The second store has the blocks of the first behind some of its own. -/
structure Echoes (E : Echo) (s t : Store) : Prop where
  fresh : t.fresh = s.fresh
  size : t.size = s.size + E.shift
  bounded : E.bound ≤ s.size
  kept : ∀ id < E.shift, t.get? id = E.under[id]?
  block : ∀ id b, s.get? id = some b →
    ∃ b', t.get? (id + E.shift) = some b' ∧ b.Echoes E.shift (E.Rel id) b'

namespace Echoes

variable {s t : Store}

theorem get?_none (h : s.Echoes E t) {id : BlockId} (hid : s.get? id = none) :
    t.get? (id + E.shift) = none := by
  have hle : s.size ≤ id := Array.getElem?_eq_none_iff.mp hid
  have hle' : t.size ≤ id + E.shift := h.size ▸ Nat.add_le_add_right hle _
  exact Array.getElem?_eq_none hle'

theorem rootOf (h : s.Echoes E t) (id : BlockId) :
    t.rootOf (id + E.shift) = (s.rootOf id).map (· + E.shift) := by
  unfold Store.rootOf
  cases hid : s.get? id with
  | none =>
    rw [h.get?_none hid]
    rfl
  | some b =>
    obtain ⟨b', hb', hblock⟩ := h.block id b hid
    rw [hb', Option.bind_some, Option.bind_some, hblock.root]

theorem update (h : s.Echoes E t) {id : BlockId} {change change' : Block → Block}
    (hchange : ∀ b b', b.Echoes E.shift (E.Rel id) b' →
      (change b).Echoes E.shift (E.Rel id) (change' b')) :
    (s.update id change).Echoes E (t.update (id + E.shift) change') := by
  constructor
  · exact h.fresh
  · rw [size_update, size_update, h.size]
  · rw [size_update]
    exact h.bounded
  · intro i hi
    have hne : id + E.shift ≠ i := Nat.ne_of_gt (Nat.lt_of_lt_of_le hi (Nat.le_add_left _ _))
    rw [get?_update, if_neg hne, h.kept i hi]
  · intro i b hb
    rw [get?_update] at hb ⊢
    by_cases hi : id = i
    · rw [if_pos hi] at hb
      obtain ⟨old, hold, rfl⟩ := Option.map_eq_some_iff.mp hb
      obtain ⟨old', hold', hblock⟩ := h.block i old hold
      rw [if_pos (by rw [hi]), hold', Option.map_some]
      exact ⟨_, rfl, hi ▸ hchange old old' (hi ▸ hblock)⟩
    · rw [if_neg hi] at hb
      rw [if_neg (mt Nat.add_right_cancel hi)]
      exact h.block i b hb

theorem push (h : s.Echoes E t) (id : BlockId)
    (element : Element) :
    (s.push id element).Echoes E
      (t.push (id + E.shift) (element.shift E.shift)) := by
  apply h.update
  intro b b' hblock
  refine ⟨hblock.kind, hblock.closed, hblock.root, ?_⟩
  rw [List.map_append]
  exact E.snoc _ _ _ _ hblock.elements

theorem setRoot (h : s.Echoes E t) (id root : BlockId) :
    (s.setRoot id root).Echoes E
      (t.setRoot (id + E.shift) (root + E.shift)) := by
  apply h.update
  intro b b' hblock
  exact ⟨hblock.kind, hblock.closed, rfl, hblock.elements⟩

theorem extend (h : s.Echoes E t) (made : List Block)
    (fresh : Nat) :
    (s.extend made fresh).Echoes E
      (t.extend (made.map (Block.shift E.shift)) fresh) := by
  have hle := h.bounded
  constructor
  · rfl
  · rw [size_extend, size_extend, h.size, List.length_map]
    omega
  · rw [size_extend]
    omega
  · intro i hi
    have hlt : i < t.size := by
      rw [h.size]
      omega
    rw [get?_extend_of_lt hlt, h.kept i hi]
  · intro (id : Nat) b hb
    rw [get?_extend] at hb ⊢
    rw [h.size]
    by_cases hid : id < s.size
    · rw [if_pos hid] at hb
      rw [if_pos (Nat.add_lt_add_right hid _)]
      exact h.block id b hb
    · rw [if_neg hid] at hb
      have hindex : id + E.shift - (s.size + E.shift) = id - s.size := by omega
      rw [if_neg (by omega), hindex, List.getElem?_map, hb, Option.map_some]
      exact ⟨_, rfl, b.echoes_shift (E.made id _ (by omega))⟩

end Echoes

/-- A block without a root has no ancestor but itself. -/
theorem isAncestor_of_rootless {s : Store} {id : BlockId} (h : s.rootOf id = none)
    (ancestor : BlockId) : s.isAncestor ancestor id = (id == ancestor) := by
  have hroot : (s.get? id).bind Block.root = none := h
  rw [isAncestor, isAncestorWithin, hroot, Bool.or_false]

end Store

namespace Edit

variable {s t : Store}

theorem requireBlock_simulates {α β : Type} {Res : α → β → Prop} (h : s.Echoes E t)
    {id : BlockId} {f : Block → Edit α} {f' : Block → Edit β}
    (hf : ∀ b b', s.get? id = some b → b.Echoes E.shift (E.Rel id) b' →
      Simulates (Store.Echoes E) Res (f b) (f' b') s t) :
    Simulates (Store.Echoes E) Res (requireBlock id >>= f)
      (requireBlock (id + E.shift) >>= f') s t := by
  intro a s' hm
  obtain ⟨b, hb, hrest⟩ := (succeeds_requireBlock_bind _ _ _ _ _).mp hm
  obtain ⟨b', hb', hblock⟩ := h.block id b hb
  obtain ⟨c, t', ht', hres, hrel⟩ := hf b b' hb hblock a s' hrest
  exact ⟨c, t', (succeeds_requireBlock_bind _ _ _ _ _).mpr ⟨b', hb', ht'⟩, hres, hrel⟩

theorem ofExcept_simulates {α β γ : Type} {Res : β → γ → Prop} {result : Except Fault α}
    {f : α → Edit β} {f' : α → Edit γ}
    (hf : ∀ a, result = .ok a → Simulates (Store.Echoes E) Res (f a) (f' a) s t) :
    Simulates (Store.Echoes E) Res (ofExcept result >>= f) (ofExcept result >>= f')
      s t := by
  intro b s' hm
  obtain ⟨a, ha, hrest⟩ := (succeeds_ofExcept_bind _ _ _ _ _).mp hm
  obtain ⟨c, t', ht', hres, hrel⟩ := hf a ha b s' hrest
  exact ⟨c, t', (succeeds_ofExcept_bind _ _ _ _ _).mpr ⟨a, ha, ht'⟩, hres, hrel⟩

/-- The second number is the first one, shifted. -/
def Shifts (k : Nat) (id id' : BlockId) : Prop :=
  id' = id + k

theorem alloc_simulates (h : s.Echoes E t) {kind kind' : BlockKind}
    (hkind : kind' = kind.shift E.shift) :
    Simulates (Store.Echoes E) (Shifts E.shift) (alloc kind) (alloc kind') s t := by
  subst hkind
  intro id s' hm
  obtain ⟨rfl, rfl⟩ := alloc_ok hm
  refine ⟨t.size, t.extend [Block.ofKind (kind.shift E.shift)] t.fresh, ?_, h.size, ?_⟩
  · unfold alloc
    rw [succeeds_get_bind, succeeds_set_bind, succeeds_pure]
    exact ⟨rfl, by simp [Store.extend]⟩
  · rw [h.fresh]
    exact h.extend [Block.ofKind kind] s.fresh

theorem freshName_simulates (h : s.Echoes E t) (stem : String) :
    Simulates (Store.Echoes E) Eq (freshName stem) (freshName stem) s t := by
  intro name s' hm
  obtain ⟨rfl, rfl⟩ := freshName_ok hm
  refine ⟨_, ⟨t.blocks, t.fresh + 1⟩, ?_, rfl, by rw [h.fresh], h.size, h.bounded, h.kept, h.block⟩
  unfold freshName
  rw [succeeds_get_bind, succeeds_set_bind, succeeds_pure, h.fresh]
  exact ⟨rfl, rfl⟩

theorem appendBlock_simulates (h : s.Echoes E t)
    {parent : BlockId} (hparent : s.rootOf parent = none) (child : BlockId) :
    Simulates (Store.Echoes E) Eq (appendBlock parent child)
      (appendBlock (parent + E.shift) (child + E.shift)) s t := by
  have hparent' : t.rootOf (parent + E.shift) = none := by rw [h.rootOf, hparent]; rfl
  unfold appendBlock
  refine .ite (by simp) (fun _ => .pure rfl h) fun hne => ?_
  refine requireBlock_simulates h fun b b' _ hblock => ?_
  rw [hblock.kind, hblock.root]
  refine .check BlockKind.isFile_of_shift fun _ => ?_
  cases b.root with
  | some root => exact .ite (by simp) (fun _ => .pure rfl h) fun _ => .throw _ _
  | none =>
    refine .get_bind ?_
    rw [Store.isAncestor_of_rootless hparent, Store.isAncestor_of_rootless hparent']
    exact .check (by simp) fun _ => .modify ((h.setRoot _ _).push _ (.block child))

theorem appendReturn_simulates (h : s.Echoes E t)
    (parent : BlockId) {block block' : Block} (hblock : block.Echoes E.shift (E.Rel parent) block')
    (given : Return) :
    Simulates (Store.Echoes E) Eq (appendReturn parent block given)
      (appendReturn (parent + E.shift) block' (given.shift E.shift)) s t := by
  have hmodify (kind : BlockKind) : Simulates (Store.Echoes E) Eq
      (modify fun store => store.update parent fun block =>
        { block with
          kind := kind
          elements := block.elements ++ [.statement (.giveBack given)]
          closed := true })
      (modify fun store => store.update (parent + E.shift) fun block =>
        { block with
          kind := kind.shift E.shift
          elements := block.elements ++ [.statement (.giveBack (given.shift E.shift))]
          closed := true }) s t := by
    apply Simulates.modify
    apply h.update
    intro b b' hblock
    refine ⟨rfl, rfl, hblock.root, ?_⟩
    rw [List.map_append]
    exact E.snoc _ _ _ _ hblock.elements
  unfold appendReturn
  rw [hblock.kind]
  cases block.kind with
  | routine info =>
    have hclose : info.close (given.shift E.shift) = info.close given := by
      simp only [Routine.close, Return.returned_shift]
    simp only [BlockKind.shift, hclose, pure_bind]
    exact ofExcept_simulates fun _ _ => hmodify _
  | file info =>
    have hfile := hmodify (.file info)
    simp only [BlockKind.shift, pure_bind] at hfile ⊢
    split_ifs at hfile ⊢
    · simpa only [pure_bind] using hfile
    · simpa only [pure_bind] using hfile
  | plain | condition _ | arrayLoop _ | mapLoop _ | evaluation _ =>
    simp only [BlockKind.shift, pure_bind]
    exact hmodify _

theorem appendPackage_simulates (h : s.Echoes E t) (hshift : E.shift = 0) (parent : BlockId)
    {block block' : Block} (hblock : block.Echoes E.shift (E.Rel parent) block') (path : String) :
    Simulates (Store.Echoes E) Eq (appendPackage parent block path)
      (appendPackage (parent + E.shift) block' path) s t := by
  have hkind : block'.kind = block.kind := by rw [hblock.kind, hshift, BlockKind.shift_zero]
  unfold appendPackage
  rw [hkind]
  cases block.kind with
  | file info =>
    refine .ite Iff.rfl (fun _ => .modify (h.update fun b b' hblock => ?_)) fun _ => .throw _ _
    refine ⟨by rw [hshift, BlockKind.shift_zero], hblock.closed, hblock.root, ?_⟩
    rw [List.map_append]
    exact E.snoc _ _ _ _ hblock.elements
  | plain | routine _ | condition _ | arrayLoop _ | mapLoop _ | evaluation _ => exact .throw _ _

theorem appendSignal_simulates (h : s.Echoes E t)
    {parent : BlockId} (hparent : s.rootOf parent = none) (signal : Signal) (routine : BlockId) :
    Simulates (Store.Echoes E) Eq (appendSignal parent signal routine)
      (appendSignal (parent + E.shift) signal (routine + E.shift)) s t := by
  have hparent' : t.rootOf (parent + E.shift) = none := by rw [h.rootOf, hparent]; rfl
  unfold appendSignal
  refine requireBlock_simulates h fun b b' _ hblock => ?_
  rw [hblock.kind, hblock.root, BlockKind.isRoutine_shift]
  refine .check id fun _ => .get_bind ?_
  rw [Store.isAncestor_of_rootless hparent, Store.isAncestor_of_rootless hparent']
  refine .check (by simp) fun _ => .modify ?_
  cases b.root with
  | none => exact (h.setRoot _ _).push _ (.statement (.signal signal routine))
  | some root => exact h.push _ (.statement (.signal signal routine))

/-- Adding the element does not depend on what the store stands behind. -/
structure Fits (E : Echo) (s : Store) (parent : BlockId) (element : Element) : Prop where
  dependency : element.isDependency = false
  package : ∀ path, element = .statement (.package path) → E.shift = 0
  child : element.child? ≠ none → s.rootOf parent = none

theorem place_simulates (h : s.Echoes E t) {parent : BlockId}
    {block block' : Block} (hblock : block.Echoes E.shift (E.Rel parent) block')
    {element : Element} (hfits : Fits E s parent element) :
    Simulates (Store.Echoes E) Eq (place parent block element)
      (place (parent + E.shift) block' (element.shift E.shift)) s t := by
  have hpush : Simulates (Store.Echoes E) Eq
      (modify fun store => store.push parent element)
      (modify fun store => store.push (parent + E.shift) (element.shift E.shift)) s t :=
    .modify (h.push parent element)
  cases element with
  | text _ | value _ | method _ => exact hpush
  | block child => exact appendBlock_simulates h (hfits.child (by simp [Element.child?])) child
  | statement content =>
    cases content with
    | binding _ | print _ | assign _ | exit _ => exact hpush
    | dependency d => cases hfits.dependency
    | giveBack given => exact appendReturn_simulates h parent hblock given
    | package path => exact appendPackage_simulates h (hfits.package path rfl) parent hblock path
    | signal signal routine =>
      exact appendSignal_simulates h (hfits.child (by simp [Element.child?])) signal routine

theorem append_simulates (h : s.Echoes E t) {parent : BlockId}
    {element : Element} (hfits : Fits E s parent element) :
    Simulates (Store.Echoes E) Eq (append parent element)
      (append (parent + E.shift) (element.shift E.shift)) s t := by
  unfold append
  refine requireBlock_simulates h fun b b' _ hblock => ?_
  rw [hblock.closed]
  exact .check id fun _ => place_simulates h hblock hfits

theorem newRoutine_simulates (h : s.Echoes E t)
    (name : Option String) (parameters : List BoundParameter) (mode : BindingMode)
    (declared : Option Kind) :
    Simulates (Store.Echoes E) (Shifts E.shift) (newRoutine name parameters mode declared)
      (newRoutine name parameters mode declared) s t := by
  unfold newRoutine
  refine .bind (alloc_simulates h rfl) fun id id' s' t' hid h' => ?_
  subst hid
  refine .ite Iff.rfl (fun _ => ?_) fun _ => .pure rfl h'
  exact .bind (append_simulates h' ⟨rfl, by simp, by simp [Element.child?]⟩)
    fun _ _ _ _ _ h'' => .pure rfl h''

theorem newCondition_simulates (h : s.Echoes E t)
    (branch : Branch) (test : Option Test) :
    Simulates (Store.Echoes E) (Shifts E.shift) (newCondition branch test)
      (newCondition branch test) s t := by
  unfold newCondition
  exact ofExcept_simulates fun condition _ => alloc_simulates h rfl

theorem newArrayLoop_simulates (h : s.Echoes E t) (array : Value)
    (element : String) :
    Simulates (Store.Echoes E)
      (fun made made' => made' = (made.1 + E.shift, made.2.shift E.shift))
      (newArrayLoop array element) (newArrayLoop (array.shift E.shift) element) s t := by
  unfold newArrayLoop
  refine .check id fun _ => ofExcept_simulates fun looped _ => ?_
  refine .bind (freshName_simulates h _) fun counterName _ _ _ hname h => ?_
  subst hname
  refine .bind (freshName_simulates h _) fun lengthName _ _ _ hname h => ?_
  subst hname
  refine ofExcept_simulates fun counter _ => ofExcept_simulates fun length _ => ?_
  refine ofExcept_simulates fun counted _ => ofExcept_simulates fun item hitem => ?_
  refine .bind (alloc_simulates h rfl) fun id id' _ _ hid h => .pure ?_ h
  have hshift : item.shift E.shift = item := by
    apply Value.shift_eq_self
    rw [(Value.make_ok hitem).2.2.2.1]
    rfl
  rw [hid, hshift]

theorem newMapLoop_simulates (h : s.Echoes E t) (map : Value)
    (element : String) :
    Simulates (Store.Echoes E) (Shifts E.shift) (newMapLoop map element)
      (newMapLoop (map.shift E.shift) element) s t := by
  unfold newMapLoop
  exact .check id fun _ => ofExcept_simulates fun looped _ => alloc_simulates h rfl

theorem newEvaluation_simulates (h : s.Echoes E t) :
    Simulates (Store.Echoes E) (Shifts E.shift) newEvaluation newEvaluation s t := by
  unfold newEvaluation
  refine .bind (newCondition_simulates h _ _) fun handler handler' _ _ hhandler h => ?_
  subst hhandler
  refine .bind (append_simulates h ⟨rfl, by simp, by simp [Element.child?]⟩)
    fun _ _ _ _ _ h => ?_
  refine .bind (alloc_simulates h rfl) fun id id' _ _ hid h => ?_
  subst hid
  exact .bind (.modify (h.setRoot _ _)) fun _ _ _ _ _ h => .pure rfl h

end Edit

end LineScript
