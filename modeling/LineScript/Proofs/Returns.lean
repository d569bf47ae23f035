import LineScript.Proofs.Linked

/-!
# Returns

A return closes the block it stands in, and a routine keeps what the return of its own block hands
back. Every edit leaves a block either without a return or with one, its last element. The kind
that a routine is declared to return is checked against this return only: a return in a block
further inside is not checked.
-/
namespace LineScript

def Element.return? : Element → Option Return
  | .statement (.giveBack given) => some given
  | _ => none

namespace BlockKind

/-- The kind that a routine is declared to return. -/
def declared? : BlockKind → Option Kind
  | routine info => info.declared
  | _ => none

/-- What a routine has been found to hand back. -/
def returned? : BlockKind → Option Returned
  | routine info => info.returned
  | _ => none

theorem returned?_close (given : Return) {kind : BlockKind} (h : kind.isRoutine = true) :
    (kind.close given).returned? = some given.returned := by
  cases kind with
  | routine info => rfl
  | plain | file _ | condition _ | arrayLoop _ | mapLoop _ | evaluation _ => cases h

theorem declared?_close (given : Return) (kind : BlockKind) :
    (kind.close given).declared? = kind.declared? := by
  cases kind <;> rfl

theorem isRoutine_close (given : Return) (kind : BlockKind) :
    (kind.close given).isRoutine = kind.isRoutine := by
  cases kind <;> rfl

theorem isRoutine_of_returned? {kind : BlockKind} {given : Returned}
    (h : kind.returned? = some given) : kind.isRoutine = true := by
  cases kind with
  | routine info => rfl
  | plain | file _ | condition _ | arrayLoop _ | mapLoop _ | evaluation _ => cases h

theorem isRoutine_of_declared? {kind : BlockKind} {declared : Kind}
    (h : kind.declared? = some declared) : kind.isRoutine = true := by
  cases kind with
  | routine info => rfl
  | plain | file _ | condition _ | arrayLoop _ | mapLoop _ | evaluation _ => cases h

end BlockKind

theorem Element.return?_of_isPlain {element : Element} (h : element.isPlain = true) :
    element.return? = none := by
  cases element with
  | text _ | block _ | value _ | method _ => rfl
  | statement content => cases content <;> first | rfl | cases h

namespace Block

/-- What an open block may become when an element is added to it. -/
inductive Added (block : Block) : Element → Block → Prop where
  | other {element : Element} {changed : Block} (helement : element.return? = none)
      (hclosed : changed.closed = block.closed)
      (hreturned : changed.kind.returned? = block.kind.returned?)
      (helements : ∀ e ∈ changed.elements, e ∈ block.elements ∨ e = element) :
      Added block element changed
  | giveBack {given : Return}
      (hconforms : ∀ declared, block.kind.declared? = some declared →
        Routine.conforms declared given.returned = true) :
      Added block (.statement (.giveBack given))
        { block with
          kind := block.kind.close given
          elements := block.elements ++ [.statement (.giveBack given)]
          closed := true }

theorem Added.snoc (block : Block) {element : Element} (helement : element.return? = none) :
    block.Added element { block with elements := block.elements ++ [element] } := by
  refine .other helement rfl rfl fun e he => ?_
  rwa [List.mem_append, List.mem_singleton] at he

/-- The block has no return, or its last element is its only one. A routine knows what its return
hands back, and this is what it was declared to return. -/
inductive ReturnsLast (block : Block) : Prop where
  | unclosed (hopen : block.closed = false)
      (helements : ∀ e ∈ block.elements, e.return? = none)
      (hreturned : block.kind.returned? = none)
  | closed {front : List Element} {given : Return} (hclosed : block.closed = true)
      (helements : block.elements = front ++ [.statement (.giveBack given)])
      (hfront : ∀ e ∈ front, e.return? = none)
      (hreturned : block.kind.isRoutine = true → block.kind.returned? = some given.returned)
      (hconforms : ∀ declared, block.kind.declared? = some declared →
        Routine.conforms declared given.returned = true)

namespace ReturnsLast

variable {block changed : Block}

theorem withRoot (h : block.ReturnsLast) (root : Option BlockId) :
    ({ block with root := root } : Block).ReturnsLast := by
  cases h with
  | unclosed hopen helements hreturned => exact .unclosed hopen helements hreturned
  | closed hclosed helements hfront hreturned hconforms =>
    exact .closed hclosed helements hfront hreturned hconforms

theorem added (h : block.ReturnsLast) (hopen : block.closed = false) {element : Element}
    (hadded : block.Added element changed) : changed.ReturnsLast := by
  cases h with
  | closed hclosed =>
    rw [hopen] at hclosed
    cases hclosed
  | unclosed _ hnone hreturned =>
    cases hadded with
    | other helement hclosed hkept helements =>
      refine .unclosed (hclosed.trans hopen) (fun e he => ?_) (hkept.trans hreturned)
      rcases helements e he with he | rfl
      · exact hnone e he
      · exact helement
    | @giveBack given hconforms =>
      refine .closed rfl rfl hnone (fun hroutine => ?_) fun declared hdeclared => ?_
      · exact BlockKind.returned?_close given (by rwa [BlockKind.isRoutine_close] at hroutine)
      · rw [BlockKind.declared?_close] at hdeclared
        exact hconforms declared hdeclared

theorem of_mem_return (h : block.ReturnsLast) {given : Return}
    (hmem : Element.statement (.giveBack given) ∈ block.elements) :
    block.closed = true ∧ block.elements.getLast? = some (.statement (.giveBack given)) ∧
      (block.kind.isRoutine = true → block.kind.returned? = some given.returned) ∧
      ∀ declared, block.kind.declared? = some declared →
        Routine.conforms declared given.returned = true := by
  cases h with
  | unclosed _ hnone _ => cases hnone _ hmem
  | @closed front other hclosed helements hfront hreturned hconforms =>
    rw [helements, List.mem_append, List.mem_singleton] at hmem
    rcases hmem with hmem | heq
    · cases hfront _ hmem
    · cases heq
      refine ⟨hclosed, ?_, hreturned, hconforms⟩
      rw [helements, List.getLast?_concat]

theorem of_returned? (h : block.ReturnsLast) {returned : Returned}
    (hreturned : block.kind.returned? = some returned) :
    block.closed = true ∧ ∃ given, block.elements.getLast? = some (.statement (.giveBack given)) ∧
      given.returned = returned := by
  cases h with
  | unclosed _ _ hnone =>
    rw [hnone] at hreturned
    cases hreturned
  | @closed front given hclosed helements _ hgiven _ =>
    refine ⟨hclosed, given, by rw [helements, List.getLast?_concat], ?_⟩
    rw [hgiven (BlockKind.isRoutine_of_returned? hreturned)] at hreturned
    exact Option.some.inj hreturned

end ReturnsLast

end Block

namespace Store

variable {s t : Store}

theorem get?_replace_iff {id i : BlockId} {block found : Block} (hid : id < s.size)
    (h : (s.replace id block).get? i = some found) :
    i = id ∧ found = block ∨ i ≠ id ∧ s.get? i = some found := by
  by_cases hi : i = id
  · rw [hi, get?_replace_self hid] at h
    exact Or.inl ⟨hi, (Option.some.inj h).symm⟩
  · rw [s.get?_replace_of_ne hi] at h
    exact Or.inr ⟨hi, h⟩

/-- The block differs from the one that was there in its root at most. -/
def Keeps (s : Store) (i : BlockId) (found : Block) : Prop :=
  ∃ old, s.get? i = some old ∧ found = { old with root := found.root }

theorem keeps_of_get? {i : BlockId} {found : Block} (h : s.get? i = some found) :
    s.Keeps i found :=
  ⟨found, h, rfl⟩

theorem added_replace {parent : BlockId} {block changed : Block} {element : Element}
    (hblock : s.get? parent = some block) (hadded : block.Added element changed) (i : BlockId)
    (found : Block) (h : (s.replace parent changed).get? i = some found) :
    s.Keeps i found ∨ i = parent ∧ block.Added element found := by
  rcases get?_replace_iff (lt_size_of_get? hblock) h with ⟨hi, rfl⟩ | ⟨_, h⟩
  · exact Or.inr ⟨hi, hadded⟩
  · exact Or.inl (keeps_of_get? h)

theorem added_attach {child parent : BlockId} {inner block : Block} {element : Element}
    (hinner : s.get? child = some inner) (hblock : s.get? parent = some block)
    (helement : element.return? = none) (i : BlockId) (found : Block)
    (h : (s.attach child parent inner block element).get? i = some found) :
    s.Keeps i found ∨ i = parent ∧ block.Added element found := by
  have hparent := lt_size_of_get? hblock
  rcases get?_replace_iff (by rwa [size_replace]) h with ⟨hi, rfl⟩ | ⟨_, h⟩
  · exact Or.inr ⟨hi, .snoc block helement⟩
  · rcases get?_replace_iff (lt_size_of_get? hinner) h with ⟨rfl, rfl⟩ | ⟨_, h⟩
    · exact Or.inl ⟨inner, hinner, rfl⟩
    · exact Or.inl (keeps_of_get? h)

theorem ne_of_isAncestor {ancestor id : BlockId} (h : s.isAncestor ancestor id = false) :
    ancestor ≠ id := by
  rintro rfl
  simp [isAncestor, isAncestorWithin] at h

end Store

/-- The blocks after an element has been added. Besides the block that the element was meant for,
only roots may have changed. -/
theorem Edit.append_added {s t : Store} {parent : BlockId} {element : Element}
    (h : Succeeds (Edit.append parent element) s () t) :
    ∃ block, s.get? parent = some block ∧ block.closed = false ∧ t.size = s.size ∧
      ∀ i found, t.get? i = some found →
        s.Keeps i found ∨ i = parent ∧ block.Added element found := by
  cases hplain : element.isPlain with
  | true =>
    obtain ⟨block, hblock, hopen, rfl⟩ := append_plain_ok hplain h
    exact ⟨block, hblock, hopen, s.size_replace _ _,
      Store.added_replace hblock (.snoc block (Element.return?_of_isPlain hplain))⟩
  | false =>
    cases element with
    | text _ | value _ | method _ => cases hplain
    | block child =>
      obtain ⟨block, hblock, hopen, ⟨_, rfl⟩ | ⟨inner, hinner, _, _, ⟨_, rfl⟩ | ⟨_, _, rfl⟩⟩⟩ :=
        append_block_ok h
      · exact ⟨block, hblock, hopen, rfl, fun _ _ h => Or.inl (Store.keeps_of_get? h)⟩
      · exact ⟨block, hblock, hopen, rfl, fun _ _ h => Or.inl (Store.keeps_of_get? h)⟩
      · exact ⟨block, hblock, hopen, Store.size_attach, Store.added_attach hinner hblock rfl⟩
    | statement content =>
      cases content with
      | binding _ | print _ | assign _ | exit _ => cases hplain
      | giveBack given =>
        obtain ⟨block, hblock, hopen, hconforms, rfl⟩ := append_return_ok h
        refine ⟨block, hblock, hopen, s.size_replace _ _,
          Store.added_replace hblock (.giveBack fun declared hdeclared => ?_)⟩
        cases hkind : block.kind with
        | routine info =>
          rw [hkind] at hdeclared
          exact hconforms info declared hkind hdeclared
        | plain | file _ | condition _ | arrayLoop _ | mapLoop _ | evaluation _ =>
          rw [hkind] at hdeclared
          cases hdeclared
      | package path =>
        obtain ⟨block, info, hblock, hopen, hkind, _, rfl⟩ := append_package_ok h
        refine ⟨block, hblock, hopen, s.size_replace _ _,
          Store.added_replace hblock (.other rfl rfl (by rw [hkind]; rfl) fun e he => ?_)⟩
        rwa [List.mem_append, List.mem_singleton] at he
      | dependency d =>
        obtain ⟨block, info, hblock, hopen, _, rfl⟩ := append_dependency_ok h
        refine ⟨block, hblock, hopen, s.size_replace _ _,
          Store.added_replace hblock (.other rfl rfl rfl fun e he => ?_)⟩
        cases hdone : info.headerDone with
        | true =>
          simp only [hdone, if_true, List.mem_cons] at he
          exact he.symm
        | false =>
          simp only [hdone, Bool.false_eq_true, if_false, List.mem_append, List.mem_singleton] at he
          exact he
      | signal signal routine =>
        obtain ⟨block, handler, hblock, hopen, hhandler, _, hancestor, rfl⟩ := append_signal_ok h
        have hne := Store.ne_of_isAncestor hancestor
        cases hroot : handler.root.isNone with
        | true =>
          rw [if_pos rfl, Store.setRoot, Store.update_eq_replace hhandler, Store.push,
            Store.update_eq_replace (by rw [Store.get?_replace_of_ne _ hne.symm, hblock])]
          exact ⟨block, hblock, hopen, Store.size_attach,
            Store.added_attach hhandler hblock rfl⟩
        | false =>
          rw [if_neg Bool.false_ne_true, Store.push, Store.update_eq_replace hblock]
          exact ⟨block, hblock, hopen, s.size_replace _ _,
            Store.added_replace hblock (.snoc block rfl)⟩

namespace Store

variable {s t : Store}

/-- Every block has its return, if any, as its last element. -/
def ReturnsLast (s : Store) : Prop :=
  ∀ id block, s.get? id = some block → block.ReturnsLast

/-- What the routine with this number has been found to hand back. -/
def returnedOf (s : Store) (id : BlockId) : Option Returned :=
  (s.get? id).bind fun block => block.kind.returned?

theorem ReturnsLast.append (h : s.ReturnsLast) {parent : BlockId} {element : Element}
    (happend : Succeeds (Edit.append parent element) s () t) : t.ReturnsLast := by
  obtain ⟨block, hblock, hopen, _, hcases⟩ := Edit.append_added happend
  intro id found hfound
  rcases hcases id found hfound with ⟨old, hold, heq⟩ | ⟨_, hadded⟩
  · rw [heq]
    exact (h id old hold).withRoot _
  · exact (h parent block hblock).added hopen hadded

theorem ReturnsLast.extend (h : s.ReturnsLast) {made : List Block}
    (hmade : ∀ block ∈ made, block.ReturnsLast) (fresh : Nat) :
    (s.extend made fresh).ReturnsLast := by
  intro id found hfound
  rcases get?_extend_cases hfound with hmem | hfound
  · exact hmade found hmem
  · exact h id found hfound

/-- What a routine hands back is settled by its closing return. -/
theorem ReturnsLast.returnedOf_append (h : s.ReturnsLast) {parent : BlockId} {element : Element}
    (happend : Succeeds (Edit.append parent element) s () t) {id : BlockId} {returned : Returned}
    (hid : s.returnedOf id = some returned) : t.returnedOf id = some returned := by
  obtain ⟨block, hblock, hopen, hsize, hcases⟩ := Edit.append_added happend
  obtain ⟨old, hold, hreturned⟩ := Option.bind_eq_some_iff.mp hid
  obtain ⟨found, hfound⟩ := exists_get? (hsize ▸ lt_size_of_get? hold)
  rw [returnedOf, hfound, Option.bind_some]
  rcases hcases id found hfound with ⟨old', hold', heq⟩ | ⟨rfl, _⟩
  · obtain rfl := Option.some.inj (hold.symm.trans hold')
    rw [heq, hreturned]
  · obtain rfl := Option.some.inj (hold.symm.trans hblock)
    have hclosed := ((h id old hold).of_returned? hreturned).1
    rw [hopen] at hclosed
    cases hclosed

theorem returnedOf_extend {id : BlockId} {returned : Returned}
    (h : s.returnedOf id = some returned) (made : List Block) (fresh : Nat) :
    (s.extend made fresh).returnedOf id = some returned := by
  obtain ⟨block, hblock, hreturned⟩ := Option.bind_eq_some_iff.mp h
  rw [returnedOf, get?_extend_of_lt (lt_size_of_get? hblock), hblock, Option.bind_some, hreturned]

end Store

namespace Scopes

variable {s t : Scopes}

/-- A move that stays in the open scopes adds at most one element to the store. -/
theorem Stays.append_or_same {c : Construct} (h : s.Stays c t) :
    t.store = s.store ∨
      ∃ parent element, Succeeds (Edit.append parent element) s.store () t.store := by
  cases h with
  | note log => exact Or.inl rfl
  | add log _ happend => exact Or.inr ⟨_, _, happend⟩
  | declare log _ _ _ happend => exact Or.inr ⟨_, _, happend⟩
  | hoist log _ happend => exact Or.inr ⟨_, _, happend⟩
  | package log _ happend => exact Or.inr ⟨_, _, happend⟩

theorem Opening.returnsLast {c : Construct} {o : Opened} (h : s.Opening c o) :
    ∀ block ∈ o.made, block.ReturnsLast := by
  intro block hblock
  cases h with
  | plain | condition _ _ _ | mapLoop _ _ _ | arrayLoop _ _ _ _ _ _ _ =>
    obtain rfl := List.mem_singleton.mp hblock
    exact .unclosed rfl (by simp [Block.ofKind]) rfl
  | routine _ _ | signal _ =>
    obtain rfl := List.mem_singleton.mp hblock
    refine .unclosed rfl (fun e he => ?_) rfl
    unfold routineBlock at he
    split_ifs at he
    · cases he
    · rw [List.mem_singleton.mp he]
      rfl
  | attempt _ =>
    rw [List.mem_cons, List.mem_singleton] at hblock
    rcases hblock with rfl | rfl
    · exact .unclosed rfl (by simp [Element.return?]) rfl
    · exact .unclosed rfl (by simp [Block.ofKind]) rfl

theorem returnsLast_start (name : String) (isModule : Bool) (deps : List Dependency) :
    (start name isModule deps).store.ReturnsLast := by
  intro id block hblock
  obtain ⟨_, rfl⟩ := get?_start hblock
  refine .unclosed rfl (fun e he => ?_) rfl
  rcases mem_fileBlock he with ⟨d, rfl⟩ | rfl <;> rfl

theorem returnsLast_stays (h : s.store.ReturnsLast) {c : Construct} (hmove : s.Stays c t) :
    t.store.ReturnsLast := by
  rcases hmove.append_or_same with heq | ⟨parent, element, happend⟩
  · rwa [heq]
  · exact h.append happend

theorem returnsLast_closes (h : s.store.ReturnsLast) (hmove : s.Closes t) :
    t.store.ReturnsLast := by
  cases hmove with
  | close log _ happend => exact h.append happend

theorem returnsLast_of_runs {name : String} {isModule : Bool} {deps : List Dependency}
    {lines : List Construct} (hruns : (start name isModule deps).Runs lines s) :
    s.store.ReturnsLast := by
  apply hruns.invariant (fun _ s => s.store.ReturnsLast)
  · exact returnsLast_start name isModule deps
  · intro _ c s t hmove h
    exact returnsLast_stays h hmove
  · intro _ _ _ _ _ h
    exact h
  · intro _ c s o log _ hopening h
    exact h.extend hopening.returnsLast o.fresh
  · intro _ c s t _ hmove h
    exact returnsLast_closes h hmove

end Scopes

namespace Store

variable {s : Store}

/-- The block is the body of the routine, or a block inside it that is not inside another
routine. -/
inductive Inside (s : Store) (routine : BlockId) : BlockId → Prop where
  | body : s.Inside routine routine
  | nested {b c : BlockId} {block : Block} (h : s.Inside routine b) (hholds : s.Holds b c)
      (hblock : s.get? c = some block) (hkind : block.kind.isRoutine = false) : s.Inside routine c

/-- A return of the routine, in the given block. -/
def ReturnsFrom (s : Store) (routine b : BlockId) (given : Return) : Prop :=
  s.Inside routine b ∧ ∃ block, s.get? b = some block ∧
    Element.statement (.giveBack given) ∈ block.elements

/-- The returns of a block. -/
def returnsOf (s : Store) (b : BlockId) : List Return :=
  (s.get? b).toList.flatMap fun block => block.elements.filterMap Element.return?

theorem mem_returnsOf {b : BlockId} {given : Return} :
    given ∈ s.returnsOf b ↔
      ∃ block, s.get? b = some block ∧ Element.statement (.giveBack given) ∈ block.elements := by
  simp only [returnsOf, List.mem_flatMap, Option.mem_toList, List.mem_filterMap]
  apply exists_congr
  intro block
  apply and_congr_right
  intro _
  constructor
  · rintro ⟨e, he, hgiven⟩
    unfold Element.return? at hgiven
    split at hgiven
    · obtain rfl := Option.some.inj hgiven
      exact he
    · cases hgiven
  · intro he
    exact ⟨_, he, rfl⟩

end Store

/-- In a compiled script, a routine that is declared to return a kind hands back this kind through
the return of its own block, and through no other return does it know what it hands back. All
returns of the routine conform if none stands in a block further inside. -/
theorem declared_return_conforms {settings : Settings} {script : Script} {program : Program}
    {log : List LogEntry} (h : compile settings script = (.ok program, log)) {id : BlockId}
    {block : Block} {declared : Kind} (hblock : program.store.get? id = some block)
    (hdeclared : block.kind.declared? = some declared) :
    (∀ given, program.store.ReturnsFrom id id given →
      Routine.conforms declared given.returned = true ∧
        block.kind.returned? = some given.returned ∧
        block.elements.getLast? = some (.statement (.giveBack given))) ∧
      (∀ returned, block.kind.returned? = some returned →
        ∃ given, program.store.ReturnsFrom id id given ∧ given.returned = returned) ∧
      ((∀ b given, program.store.ReturnsFrom id b given → b = id) →
        ∀ b given, program.store.ReturnsFrom id b given →
          Routine.conforms declared given.returned = true) := by
  obtain ⟨_, _, final, _, hruns, _, rfl, _⟩ := compile_ok h
  have hlast := Scopes.returnsLast_of_runs hruns id block hblock
  have hown : ∀ given, final.store.ReturnsFrom id id given →
      Routine.conforms declared given.returned = true ∧
        block.kind.returned? = some given.returned ∧
        block.elements.getLast? = some (.statement (.giveBack given)) := by
    rintro given ⟨_, found, hfound, hmem⟩
    obtain rfl := Option.some.inj (hblock.symm.trans hfound)
    obtain ⟨_, hgiven, hreturned, hconforms⟩ := hlast.of_mem_return hmem
    exact ⟨hconforms declared hdeclared,
      hreturned (BlockKind.isRoutine_of_declared? hdeclared), hgiven⟩
  refine ⟨hown, ?_, ?_⟩
  · intro returned hreturned
    obtain ⟨_, given, hgiven, heq⟩ := hlast.of_returned? hreturned
    exact ⟨given, ⟨.body, block, hblock, List.mem_of_getLast? hgiven⟩, heq⟩
  · intro honly b given hgiven
    obtain rfl := honly b given hgiven
    exact (hown given hgiven).1

/-- The block is a routine that is declared to return the kind, and only this block has returns. -/
def returnsOnlyIn (declared : Kind) (id : BlockId) (store : Store) : Bool :=
  (store.get? id).any (fun block => block.kind.declared? == some declared) &&
    !(store.returnsOf id).isEmpty &&
    (List.range store.size).all fun b => b == id || (store.returnsOf b).isEmpty

theorem declared_return_conforms_after_branch :
    ∃ program log block given,
      compile {} (.ofSource "a" "sub f(Int x) -> Int \x7b\nif x \x7b\n\x7d\nreturn x\n\x7d") =
        (.ok program, log) ∧
      program.store.get? 1 = some block ∧ block.kind.declared? = some .integer ∧
      program.store.ReturnsFrom 1 1 given ∧ block.kind.returned? = some given.returned ∧
      ∀ b given, program.store.ReturnsFrom 1 b given →
        Routine.conforms .integer given.returned = true := by
  obtain ⟨program, log, h, hcheck⟩ := exists_of_compile_any {}
    (.ofSource "a" "sub f(Int x) -> Int \x7b\nif x \x7b\n\x7d\nreturn x\n\x7d")
    (fun program => returnsOnlyIn .integer 1 program.store) (by decide +kernel)
  rw [returnsOnlyIn, Bool.and_eq_true, Bool.and_eq_true, Option.any_eq_true, List.all_eq_true]
    at hcheck
  obtain ⟨⟨⟨block, hblock, hdeclared⟩, hreturns⟩, honly⟩ := hcheck
  have hdeclared := beq_iff_eq.mp hdeclared
  obtain ⟨given, hgiven⟩ :=
    List.exists_mem_of_ne_nil (program.store.returnsOf 1) (by simpa using hreturns)
  have hfrom : program.store.ReturnsFrom 1 1 given := ⟨.body, Store.mem_returnsOf.mp hgiven⟩
  obtain ⟨hown, _, hall⟩ := declared_return_conforms h hblock hdeclared
  refine ⟨program, log, block, given, h, hblock, hdeclared, hfrom, (hown given hfrom).2.1, hall ?_⟩
  rintro b given ⟨_, found, hfound, hmem⟩
  have hb := honly b (List.mem_range.mpr (Store.lt_size_of_get? hfound))
  have hin : given ∈ program.store.returnsOf b := Store.mem_returnsOf.mpr ⟨found, hfound, hmem⟩
  rw [Bool.or_eq_true, beq_iff_eq, List.isEmpty_iff] at hb
  rcases hb with hb | hb
  · exact hb
  · rw [hb] at hin
    cases hin

/-- A return in the body of an `if` is not held against what the routine around it is declared to
return. -/
theorem return_in_branch_unchecked :
    ∃ program log block given,
      compile { defaultDependencies := [] }
          (.ofSource "a" ("sub f(Int x) -> Int \x7b\nString s = \"a\"\nif x \x7b\nreturn s\n" ++
            "\x7d\nreturn x\n\x7d\nInt r = f(1)")) = (.ok program, log) ∧
      program.store.get? 1 = some block ∧ block.kind.declared? = some .integer ∧
      program.store.ReturnsFrom 1 2 given ∧
      Routine.conforms .integer given.returned = false := by
  obtain ⟨program, log, h, hcheck⟩ := exists_of_compile_any { defaultDependencies := [] }
    (.ofSource "a" ("sub f(Int x) -> Int \x7b\nString s = \"a\"\nif x \x7b\nreturn s\n" ++
      "\x7d\nreturn x\n\x7d\nInt r = f(1)"))
    (fun program =>
      (program.store.get? 1).any (fun block => block.kind.declared? == some .integer) &&
      (program.store.childrenOf 1).contains 2 &&
      (program.store.get? 2).any (fun block => !block.kind.isRoutine) &&
      (program.store.returnsOf 2).any fun given => !Routine.conforms .integer given.returned)
    (by decide +kernel)
  simp only [Bool.and_eq_true, Option.any_eq_true, List.any_eq_true, List.contains_iff_mem,
    Bool.not_eq_true', beq_iff_eq] at hcheck
  obtain ⟨⟨⟨⟨block, hblock, hdeclared⟩, hholds⟩, inner, hinner, hkind⟩, given, hgiven, hfails⟩ :=
    hcheck
  exact ⟨program, log, block, given, h, hblock, hdeclared,
    ⟨.nested .body hholds hinner hkind, Store.mem_returnsOf.mp hgiven⟩, hfails⟩

end LineScript
