import LineScript.Proofs.Failure
import LineScript.Proofs.Returns
import LineScript.Proofs.Stored

/-!
# Changes of a store

A store is changed by making blocks and by adding elements to blocks, in any order and with any
numbers and elements. A change may end in a fault; what it has done up to there stays. `Store.Step`
says what one change can do, so that an invariant of all stores that changes lead to is shown
without a look at the edits themselves.
-/
namespace LineScript

section Breaking

variable {σ α β : Type}

/-- The computation ends in a fault, in this state. -/
def Breaks (m : ExceptT Fault (StateM σ) α) (s t : σ) : Prop :=
  ∃ fault, m.run s = (.error fault, t)

/-- What holds after a success and after a fault holds after the computation. -/
theorem run_cases {P : σ → Prop} (m : ExceptT Fault (StateM σ) α) (s : σ)
    (hok : ∀ a t, Succeeds m s a t → P t) (hbreaks : ∀ t, Breaks m s t → P t) :
    P (m.run s).2 := by
  cases hm : m.run s with
  | mk result t =>
    cases result with
    | ok a => exact hok a t hm
    | error fault => exact hbreaks t ⟨fault, hm⟩

theorem breaks_bind {m : ExceptT Fault (StateM σ) α} {f : α → ExceptT Fault (StateM σ) β}
    {s u : σ} (h : Breaks (m >>= f) s u) :
    Breaks m s u ∨ ∃ a t, Succeeds m s a t ∧ Breaks (f a) t u := by
  obtain ⟨fault, h⟩ := h
  rw [run_bind] at h
  cases hm : m.run s with
  | mk result t =>
    rw [hm] at h
    cases result with
    | ok a => exact Or.inr ⟨a, t, hm, fault, h⟩
    | error other =>
      obtain ⟨_, rfl⟩ := Prod.mk.inj h
      exact Or.inl ⟨other, hm⟩

theorem not_breaks_pure (a : α) (s t : σ) :
    ¬ Breaks (pure a : ExceptT Fault (StateM σ) α) s t := by
  rintro ⟨fault, h⟩
  cases congrArg Prod.fst h

theorem not_breaks_modify (f : σ → σ) (s t : σ) :
    ¬ Breaks (modify f : ExceptT Fault (StateM σ) PUnit) s t := by
  rintro ⟨fault, h⟩
  cases congrArg Prod.fst h

/-- A fault of the computation leaves the state as it was. -/
def Guarded (m : ExceptT Fault (StateM σ) α) : Prop :=
  ∀ s t, Breaks m s t → t = s

/-- The computation looks at the state and does not change it. -/
def Looks (m : ExceptT Fault (StateM σ) α) : Prop :=
  ∀ s, (m.run s).2 = s

theorem Looks.guarded {m : ExceptT Fault (StateM σ) α} (h : Looks m) : Guarded m := by
  rintro s t ⟨fault, hbreaks⟩
  rw [← h s, hbreaks]

theorem Looks.bind_guarded {m : ExceptT Fault (StateM σ) α}
    {f : α → ExceptT Fault (StateM σ) β} (h : Looks m) (hf : ∀ a, Guarded (f a)) :
    Guarded (m >>= f) := by
  intro s u hbreaks
  rcases breaks_bind hbreaks with hbreaks | ⟨a, t, hm, hbreaks⟩
  · exact h.guarded s u hbreaks
  · have ht : t = s := by
      rw [← h s, hm]
    rw [hf a t u hbreaks, ht]

theorem looks_get : Looks (get : ExceptT Fault (StateM σ) σ) :=
  fun _ => rfl

theorem looks_throw (fault : Fault) : Looks (throw fault : ExceptT Fault (StateM σ) α) :=
  fun _ => rfl

theorem looks_throw_bind (fault : Fault) (f : α → ExceptT Fault (StateM σ) β) :
    Looks (throw fault >>= f) :=
  fun _ => rfl

theorem guarded_pure (a : α) : Guarded (pure a : ExceptT Fault (StateM σ) α) :=
  fun s t h => absurd h (not_breaks_pure a s t)

theorem guarded_modify (f : σ → σ) : Guarded (modify f : ExceptT Fault (StateM σ) PUnit) :=
  fun s t h => absurd h (not_breaks_modify f s t)

end Breaking

namespace Edit

theorem looks_ofExcept {α : Type} (result : Except Fault α) : Looks (ofExcept result) := by
  intro s
  cases result <;> rfl

theorem looks_requireBlock (id : BlockId) : Looks (requireBlock id) := by
  intro s
  have hget : (get : Edit Store).run s = (.ok s, s) := rfl
  unfold requireBlock
  simp only [run_bind, hget]
  cases s.block id <;> rfl

theorem appendBlock_guarded (parent child : BlockId) : Guarded (appendBlock parent child) := by
  unfold appendBlock
  by_cases hself : child = parent
  · simp only [hself, if_true]
    exact guarded_pure _
  simp only [hself, if_false]
  refine (looks_requireBlock child).bind_guarded fun block => ?_
  split_ifs
  · exact (looks_throw_bind _ _).guarded
  cases block.root with
  | some root =>
    simp only
    split_ifs
    · exact guarded_pure _
    · exact (looks_throw _).guarded
  | none =>
    refine looks_get.bind_guarded fun store => ?_
    split_ifs
    · exact (looks_throw_bind _ _).guarded
    · exact guarded_modify _

theorem appendDependency_guarded (parent : BlockId) (block : Block) (d : Dependency) :
    Guarded (appendDependency parent block d) := by
  unfold appendDependency
  cases block.kind with
  | file info =>
    simp only
    split_ifs <;> exact guarded_modify _
  | plain | routine _ | condition _ | arrayLoop _ | mapLoop _ | evaluation _ =>
    exact (looks_throw _).guarded

theorem appendReturn_guarded (parent : BlockId) (block : Block) (given : Return) :
    Guarded (appendReturn parent block given) := by
  unfold appendReturn
  cases block.kind with
  | routine info =>
    exact (looks_ofExcept _).bind_guarded fun _ => guarded_modify _
  | plain | file _ | condition _ | arrayLoop _ | mapLoop _ | evaluation _ =>
    exact guarded_modify _

theorem appendPackage_guarded (parent : BlockId) (block : Block) (path : String) :
    Guarded (appendPackage parent block path) := by
  unfold appendPackage
  cases block.kind with
  | file info =>
    simp only
    split_ifs
    · exact guarded_modify _
    · exact (looks_throw _).guarded
  | plain | routine _ | condition _ | arrayLoop _ | mapLoop _ | evaluation _ =>
    exact (looks_throw _).guarded

theorem appendSignal_guarded (parent : BlockId) (signal : Signal) (routine : BlockId) :
    Guarded (appendSignal parent signal routine) := by
  unfold appendSignal
  refine (looks_requireBlock routine).bind_guarded fun handler => ?_
  cases handler.kind.isRoutine with
  | false => exact (looks_throw_bind _ _).guarded
  | true =>
    refine looks_get.bind_guarded fun store => ?_
    cases store.isAncestor routine parent with
    | true => exact (looks_throw_bind _ _).guarded
    | false => exact guarded_modify _

/-- An element that cannot be added leaves the store as it was. -/
theorem append_guarded (parent : BlockId) (element : Element) :
    Guarded (append parent element) := by
  unfold append
  refine (looks_requireBlock parent).bind_guarded fun block => ?_
  split_ifs
  · exact (looks_throw_bind _ _).guarded
  cases element with
  | text _ | value _ | method _ => exact guarded_modify _
  | block child => exact appendBlock_guarded parent child
  | statement content =>
    cases content with
    | binding _ | print _ | assign _ | exit _ => exact guarded_modify _
    | dependency d => exact appendDependency_guarded parent block d
    | giveBack given => exact appendReturn_guarded parent block given
    | package path => exact appendPackage_guarded parent block path
    | signal signal routine => exact appendSignal_guarded parent signal routine

variable {s t : Store}

theorem not_breaks_alloc (kind : BlockKind) : ¬ Breaks (alloc kind) s t := by
  rintro ⟨fault, h⟩
  cases congrArg Prod.fst h

theorem not_breaks_freshName (stem : String) : ¬ Breaks (freshName stem) s t := by
  rintro ⟨fault, h⟩
  cases congrArg Prod.fst h

theorem newCondition_guarded (branch : Branch) (test : Option Test) :
    Guarded (newCondition branch test) :=
  (looks_ofExcept _).bind_guarded fun _ _ _ h => absurd h (not_breaks_alloc _)

theorem newMapLoop_guarded (map : Value) (element : String) : Guarded (newMapLoop map element) := by
  unfold newMapLoop
  split_ifs
  · exact (looks_throw_bind _ _).guarded
  · exact (looks_ofExcept _).bind_guarded fun _ _ _ h => absurd h (not_breaks_alloc _)

/-- Of a loop that cannot be made, nothing stays but the names made up for it. -/
theorem newArrayLoop_breaks {array : Value} {element : String}
    (h : Breaks (newArrayLoop array element) s t) : t = { s with fresh := t.fresh } := by
  have hguarded (looped : Variable) (counterName lengthName : String) :
      Guarded (do
        let counter ← ofExcept (Value.make .integer (some counterName) none (.literal (.ofInt 0)))
        let length ← ofExcept
          (Value.make .scalar (some lengthName) none (.method (.on looped "size" [])))
        let counterVariable ← ofExcept counter.toVariable
        let item ← ofExcept
          (Value.make (array.element.getD .scalar) (some element) none
            (.method (.on looped "get" [.bound counterVariable])))
        let id ← alloc (.arrayLoop ⟨looped, counter, length, item⟩)
        return (id, item)) := by
    refine (looks_ofExcept _).bind_guarded fun counter => ?_
    refine (looks_ofExcept _).bind_guarded fun length => ?_
    refine (looks_ofExcept _).bind_guarded fun counterVariable => ?_
    refine (looks_ofExcept _).bind_guarded fun item => ?_
    intro s t h
    rcases breaks_bind h with h | ⟨id, u, _, h⟩
    · exact absurd h (not_breaks_alloc _)
    · exact absurd h (not_breaks_pure _ _ _)
  unfold newArrayLoop at h
  split_ifs at h
  · rw [(looks_throw_bind _ _).guarded _ _ h]
  rcases breaks_bind h with h | ⟨looped, u, hlooped, h⟩
  · rw [(looks_ofExcept _).guarded _ _ h]
  obtain ⟨_, rfl⟩ := (succeeds_ofExcept _ _ _ _).mp hlooped
  rcases breaks_bind h with h | ⟨counterName, u, hcounter, h⟩
  · exact absurd h (not_breaks_freshName _)
  obtain ⟨_, rfl⟩ := freshName_ok hcounter
  rcases breaks_bind h with h | ⟨lengthName, u, hlength, h⟩
  · exact absurd h (not_breaks_freshName _)
  obtain ⟨_, rfl⟩ := freshName_ok hlength
  rw [hguarded looped counterName lengthName _ _ h]

/-- A preamble that breaks off leaves the dependencies before the fault in the file. -/
theorem appendPreamble_breaks {file : BlockId} {preamble : List String} {block : Block}
    {info : FileInfo} (hblock : s.get? file = some block) (hkind : block.kind = .file info)
    (hheader : info.headerDone = false) (h : Breaks (appendPreamble file preamble) s t) :
    ∃ deps : List Dependency, t = s.replace file
      { block with
        elements := block.elements ++ deps.map fun d => .statement (.dependency d) } := by
  have hunchanged : s = s.replace file
      { block with
        elements := block.elements ++
          ([] : List Dependency).map fun d => .statement (.dependency d) } := by
    simp only [List.map_nil, List.append_nil]
    exact (Store.replace_self hblock).symm
  induction preamble generalizing s block with
  | nil => exact absurd h (not_breaks_pure _ _ _)
  | cons path rest ih =>
    unfold appendPreamble at h
    rcases breaks_bind h with h | ⟨d, u, hd, h⟩
    · exact ⟨[], ((looks_ofExcept _).guarded _ _ h).trans hunchanged⟩
    obtain ⟨_, rfl⟩ := (succeeds_ofExcept _ _ _ _).mp hd
    rcases breaks_bind h with h | ⟨⟨⟩, u, happend, h⟩
    · exact ⟨[], (append_guarded _ _ _ _ h).trans hunchanged⟩
    obtain ⟨block', info', hblock', _, hkind', rfl⟩ := append_dependency_ok happend
    obtain rfl := Option.some.inj (hblock.symm.trans hblock')
    obtain rfl := BlockKind.file.inj (hkind.symm.trans hkind')
    simp only [hheader, Bool.false_eq_true, if_false] at h
    have hnext := Store.get?_replace_self (Store.lt_size_of_get? hblock)
      { block with elements := block.elements ++ [.statement (.dependency d)] }
    obtain ⟨deps, rfl⟩ := ih hnext (by exact hkind) h (by
      simp only [List.map_nil, List.append_nil]
      exact (Store.replace_self hnext).symm)
    refine ⟨d :: deps, ?_⟩
    rw [Store.replace_replace]
    simp only [List.append_assoc, List.map_cons, List.singleton_append]

theorem newFile_breaks {name : String} {isModule : Bool} {preamble : List String}
    (h : Breaks (newFile name isModule preamble) s t) :
    ∃ deps : List Dependency, t = s.extend
      [{ kind := .file ⟨name, isModule, false, none⟩
         elements := deps.map fun d => .statement (.dependency d)
         closed := false
         root := none }] s.fresh := by
  unfold newFile at h
  rcases breaks_bind h with h | ⟨id, u, halloc, h⟩
  · exact absurd h (not_breaks_alloc _)
  obtain ⟨rfl, rfl⟩ := alloc_ok halloc
  rcases breaks_bind h with h | ⟨⟨⟩, u, _, h⟩
  · obtain ⟨deps, rfl⟩ := appendPreamble_breaks (s.get?_extend_single _ _) rfl rfl h
    exact ⟨deps, s.replace_extend_single _ _ _⟩
  · rcases breaks_bind h with h | ⟨⟨⟩, u, _, h⟩
    · exact absurd h (not_breaks_modify _ _ _)
    · exact absurd h (not_breaks_pure _ _ _)

theorem newRoutine_breaks {name : Option String} {parameters : List BoundParameter}
    {mode : BindingMode} {declared : Option Kind}
    (h : Breaks (newRoutine name parameters mode declared) s t) :
    t = s.extend [Block.ofKind (.routine
      ⟨name, parameters.map BoundParameter.name, mode, declared, none⟩)] s.fresh := by
  unfold newRoutine at h
  rcases breaks_bind h with h | ⟨id, u, halloc, h⟩
  · exact absurd h (not_breaks_alloc _)
  obtain ⟨rfl, rfl⟩ := alloc_ok halloc
  split_ifs at h
  · rcases breaks_bind h with h | ⟨⟨⟩, u, _, h⟩
    · exact append_guarded _ _ _ _ h
    · exact absurd h (not_breaks_pure _ _ _)
  · exact absurd h (not_breaks_pure _ _ _)

theorem newEvaluation_breaks (h : Breaks newEvaluation s t) :
    t = s ∨ ∃ condition, t = s.extend [Block.ofKind (.condition condition)] s.fresh := by
  unfold newEvaluation at h
  rcases breaks_bind h with h | ⟨handler, u, hhandler, h⟩
  · exact Or.inl (newCondition_guarded _ _ _ _ h)
  obtain ⟨condition, _, rfl, rfl⟩ := newCondition_ok hhandler
  rcases breaks_bind h with h | ⟨⟨⟩, u, _, h⟩
  · exact Or.inr ⟨condition, append_guarded _ _ _ _ h⟩
  rcases breaks_bind h with h | ⟨id, u, _, h⟩
  · exact absurd h (not_breaks_alloc _)
  rcases breaks_bind h with h | ⟨⟨⟩, u, _, h⟩
  · exact absurd h (not_breaks_modify _ _ _)
  · exact absurd h (not_breaks_pure _ _ _)

end Edit

/-- A change of a store: a block is made, or an element is added to a block. -/
inductive Change where
  | newFile (name : String) (isModule : Bool) (preamble : List String)
  | newPlain
  | newRoutine (name : Option String) (parameters : List BoundParameter) (mode : BindingMode)
      (declared : Option Kind)
  | newCondition (branch : Branch) (test : Option Test)
  | newArrayLoop (array : Value) (element : String)
  | newMapLoop (map : Value) (element : String)
  | newEvaluation
  | append (parent : BlockId) (element : Element)

/-- The store after a change, also if the change has ended in a fault. -/
def Store.after (s : Store) : Change → Store
  | .newFile name isModule preamble => ((Edit.newFile name isModule preamble).run s).2
  | .newPlain => (Edit.newPlain.run s).2
  | .newRoutine name parameters mode declared =>
    ((Edit.newRoutine name parameters mode declared).run s).2
  | .newCondition branch test => ((Edit.newCondition branch test).run s).2
  | .newArrayLoop array element => ((Edit.newArrayLoop array element).run s).2
  | .newMapLoop map element => ((Edit.newMapLoop map element).run s).2
  | .newEvaluation => (Edit.newEvaluation.run s).2
  | .append parent element => ((Edit.append parent element).run s).2

def Store.afterAll (s : Store) (changes : List Change) : Store :=
  changes.foldl Store.after s

/-- The elements that a block starts with. -/
def Element.isHeader : Element → Bool
  | .statement (.dependency _) => true
  | .statement (.binding _) => true
  | _ => false

theorem Element.eq_of_isHeader {e : Element} (h : e.isHeader = true) :
    (∃ d, e = .statement (.dependency d)) ∨ ∃ b, e = .statement (.binding b) := by
  cases e with
  | statement content =>
    cases content with
    | dependency d => exact Or.inl ⟨d, rfl⟩
    | binding b => exact Or.inr ⟨b, rfl⟩
    | giveBack _ | print _ | assign _ | signal _ _ | exit _ | package _ => cases h
  | text _ | block _ | value _ | method _ => cases h

/-- A block as it is made, apart from evaluations. -/
structure Block.Fresh (block : Block) : Prop where
  root : block.root = none
  unclosed : block.closed = false
  companion : block.kind.companion = none
  returned : block.kind.returned? = none
  settled : block.kind.Settled
  elements : ∀ e ∈ block.elements, e.isHeader = true

/-- The handler that comes with an evaluation. -/
def Block.catching (condition : Condition) (evaluation : BlockId) : Block where
  kind := .condition condition
  elements := [.statement (.print ⟨.raw "$@", true⟩)]
  closed := false
  root := some evaluation

/-- What a change can do to a store. -/
inductive Store.Step (s : Store) : Change → Store → Prop where
  | idle (c : Change) (fresh : Nat) : Step s c { s with fresh := fresh }
  | made (c : Change) {block : Block} (h : block.Fresh) (fresh : Nat) :
      Step s c (s.extend [block] fresh)
  | attempt (c : Change) (condition : Condition) :
      Step s c (s.extend
        [.catching condition (s.size + 1), Block.ofKind (.evaluation s.size)] s.fresh)
  | added {parent : BlockId} {element : Element} {t : Store}
      (h : Succeeds (Edit.append parent element) s () t) : Step s (.append parent element) t

theorem Store.Step.bare {s : Store} {c : Change} (kind : BlockKind)
    (hcompanion : kind.companion = none) (hreturned : kind.returned? = none)
    (hsettled : kind.Settled) (fresh : Nat) : s.Step c (s.extend [Block.ofKind kind] fresh) :=
  .made c ⟨rfl, rfl, hcompanion, hreturned, hsettled, by simp [Block.ofKind]⟩ fresh

namespace Block.Fresh

theorem file (info : FileInfo) (deps : List Dependency) :
    Block.Fresh
      { kind := .file info
        elements := deps.map fun d => .statement (.dependency d)
        closed := false
        root := none } := by
  refine ⟨rfl, rfl, rfl, rfl, trivial, fun e he => ?_⟩
  obtain ⟨d, _, rfl⟩ := List.mem_map.mp he
  rfl

theorem routine (name : Option String) (parameters : List BoundParameter) (mode : BindingMode)
    (declared : Option Kind) :
    Block.Fresh
      { kind := .routine ⟨name, parameters.map BoundParameter.name, mode, declared, none⟩
        elements := if parameters.isEmpty then [] else [.statement (.binding ⟨parameters, mode⟩)]
        closed := false
        root := none } := by
  refine ⟨rfl, rfl, rfl, rfl, trivial, fun e he => ?_⟩
  cases parameters with
  | nil => cases he
  | cons parameter rest =>
    rw [List.mem_singleton.mp he]
    rfl

end Block.Fresh

namespace Store

variable (s : Store)

theorem step_newFile (name : String) (isModule : Bool) (preamble : List String) :
    s.Step (.newFile name isModule preamble) (s.after (.newFile name isModule preamble)) := by
  refine run_cases (P := s.Step _) _ s (fun id t h => ?_) fun t h => ?_
  · obtain ⟨_, deps, _, rfl⟩ := Edit.newFile_ok h
    exact .made _ (.file _ deps) _
  · obtain ⟨deps, rfl⟩ := Edit.newFile_breaks h
    exact .made _ (.file _ deps) _

theorem step_newRoutine (name : Option String) (parameters : List BoundParameter)
    (mode : BindingMode) (declared : Option Kind) :
    s.Step (.newRoutine name parameters mode declared)
      (s.after (.newRoutine name parameters mode declared)) := by
  refine run_cases (P := s.Step _) _ s (fun id t h => ?_) fun t h => ?_
  · obtain ⟨_, rfl⟩ := Edit.newRoutine_ok h
    exact .made _ (.routine name parameters mode declared) _
  · rw [Edit.newRoutine_breaks h]
    exact .bare (.routine _) rfl rfl trivial _

theorem step_newCondition (branch : Branch) (test : Option Test) :
    s.Step (.newCondition branch test) (s.after (.newCondition branch test)) := by
  refine run_cases (P := s.Step _) _ s (fun id t h => ?_) fun t h => ?_
  · obtain ⟨condition, _, _, rfl⟩ := Edit.newCondition_ok h
    exact .bare (.condition condition) rfl rfl trivial _
  · rw [Edit.newCondition_guarded _ _ _ _ h]
    exact .idle _ s.fresh

theorem step_newArrayLoop (array : Value) (element : String) :
    s.Step (.newArrayLoop array element) (s.after (.newArrayLoop array element)) := by
  refine run_cases (P := s.Step _) _ s (fun made t h => ?_) fun t h => ?_
  · obtain ⟨looped, counter, length, counted, _, _, hcounter, hlength, _, hitem, _, rfl⟩ :=
      Edit.newArrayLoop_ok h
    refine .bare (.arrayLoop _) rfl rfl ⟨?_, ?_, ?_⟩ _
    · exact Value.settled_of_make (P := fun _ => True) hcounter trivial
    · exact Value.settled_of_make (P := fun _ => True) hlength ⟨trivial, by simp⟩
    · exact Value.settled_of_make (P := fun _ => True) hitem ⟨trivial, by simp [Argument.Plain]⟩
  · rw [Edit.newArrayLoop_breaks h]
    exact .idle _ t.fresh

theorem step_newMapLoop (map : Value) (element : String) :
    s.Step (.newMapLoop map element) (s.after (.newMapLoop map element)) := by
  refine run_cases (P := s.Step _) _ s (fun id t h => ?_) fun t h => ?_
  · obtain ⟨looped, _, _, _, rfl⟩ := Edit.newMapLoop_ok h
    exact .bare (.mapLoop _) rfl rfl trivial _
  · rw [Edit.newMapLoop_guarded _ _ _ _ h]
    exact .idle _ s.fresh

theorem step_newEvaluation : s.Step .newEvaluation (s.after .newEvaluation) := by
  refine run_cases (P := s.Step _) _ s (fun id t h => ?_) fun t h => ?_
  · obtain ⟨condition, _, _, rfl⟩ := Edit.newEvaluation_ok h
    exact .attempt _ condition
  · rcases Edit.newEvaluation_breaks h with rfl | ⟨condition, rfl⟩
    · exact .idle _ t.fresh
    · exact .bare (.condition condition) rfl rfl trivial _

theorem step_append (parent : BlockId) (element : Element) :
    s.Step (.append parent element) (s.after (.append parent element)) := by
  refine run_cases (P := s.Step _) _ s (fun _ t h => .added h) fun t h => ?_
  rw [Edit.append_guarded _ _ _ _ h]
  exact .idle _ s.fresh

theorem step_after (c : Change) : s.Step c (s.after c) := by
  cases c with
  | newFile name isModule preamble => exact s.step_newFile name isModule preamble
  | newPlain => exact .bare .plain rfl rfl trivial _
  | newRoutine name parameters mode declared =>
    exact s.step_newRoutine name parameters mode declared
  | newCondition branch test => exact s.step_newCondition branch test
  | newArrayLoop array element => exact s.step_newArrayLoop array element
  | newMapLoop map element => exact s.step_newMapLoop map element
  | newEvaluation => exact s.step_newEvaluation
  | append parent element => exact s.step_append parent element

/-- What every change keeps holds after all of them. -/
theorem afterAll_invariant {P : Store → Prop} {s : Store} (changes : List Change) (h : P s)
    (hstep : ∀ c ∈ changes, ∀ s t, s.Step c t → P s → P t) : P (s.afterAll changes) := by
  induction changes generalizing s with
  | nil => exact h
  | cons c rest ih =>
    refine ih (hstep c List.mem_cons_self s _ (s.step_after c) h) fun d hd => ?_
    exact hstep d (List.mem_cons_of_mem _ hd)

/-- What an element that is added to a block does to the blocks and their roots. -/
inductive Placed (s : Store) (parent : BlockId) (element : Element) : Store → Prop where
  /-- The block is there already, or it would be added to itself. -/
  | held {child : BlockId} (helement : element = .block child) : Placed s parent element s
  /-- The element brings a block along that has no root yet. -/
  | attached {child : BlockId} {inner block : Block} (hchild : element.child? = some child)
      (hinner : s.get? child = some inner) (hblock : s.get? parent = some block)
      (hfile : inner.kind.isFile = false) (hroot : inner.root = none)
      (hancestor : s.isAncestor child parent = false) :
      Placed s parent element (s.attach child parent inner block element)
  /-- A handler that belongs to a block already is installed once more. -/
  | installed {signal : Signal} {routine root : BlockId} {handler block : Block}
      (helement : element = .statement (.signal signal routine))
      (hhandler : s.get? routine = some handler) (hblock : s.get? parent = some block)
      (hroot : handler.root = some root) :
      Placed s parent element
        (s.replace parent { block with elements := block.elements ++ [element] })
  | inserted {block changed : Block} (hchild : element.child? = none)
      (hblock : s.get? parent = some block) (hkind : changed.kind.fixed = block.kind.fixed)
      (hroot : changed.root = block.root)
      (helements : changed.elements = block.elements ++ [element] ∨
        changed.elements = element :: block.elements) :
      Placed s parent element (s.replace parent changed)

variable {s}

theorem placed_of_append {t : Store} {parent : BlockId} {element : Element}
    (h : Succeeds (Edit.append parent element) s () t) : s.Placed parent element t := by
  cases hchild : element.child? with
  | none =>
    obtain ⟨block, changed, hblock, _, rfl, hkind, hroot, helements⟩ :=
      Edit.append_childless_ok hchild h
    exact .inserted hchild hblock hkind hroot (helements.imp_right fun ⟨_, _, h⟩ => h)
  | some child =>
    cases element with
    | text _ | value _ | method _ => cases hchild
    | block child =>
      obtain ⟨block, hblock, _, ⟨_, rfl⟩ | ⟨inner, hinner, _, hfile, hcases⟩⟩ :=
        Edit.append_block_ok h
      · exact .held rfl
      · rcases hcases with ⟨_, rfl⟩ | ⟨hroot, hnot, rfl⟩
        · exact .held rfl
        · exact .attached rfl hinner hblock hfile hroot hnot
    | statement content =>
      cases content with
      | dependency _ | binding _ | giveBack _ | print _ | assign _ | exit _ | package _ =>
        cases hchild
      | signal signal routine =>
        obtain ⟨block, handler, hblock, _, hhandler, hroutine, hnot, rfl⟩ := Edit.append_signal_ok h
        cases hroot : handler.root with
        | none =>
          have hparent : (s.replace routine { handler with root := some parent }).get? parent =
              some block := by
            rw [get?_replace_of_ne _ (ne_of_isAncestor hnot).symm, hblock]
          have hfile : handler.kind.isFile = false := by
            cases hkind : handler.kind <;> first | rfl | (rw [hkind] at hroutine; cases hroutine)
          rw [Option.isNone_none, if_pos rfl, setRoot, update_eq_replace hhandler, push,
            update_eq_replace hparent]
          exact .attached rfl hhandler hblock hfile hroot hnot
        | some root =>
          rw [Option.isNone_some, if_neg Bool.false_ne_true, push, update_eq_replace hblock]
          exact .installed rfl hhandler hblock hroot

end Store

end LineScript
