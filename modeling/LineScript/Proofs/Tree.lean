import LineScript.Proofs.Linked

/-!
# The tree of blocks

The blocks of a compiled script form one tree with the file as its root, and the tree mirrors the
nesting of the lines: a block belongs to the block of the innermost line that is open where its
own line stands.
-/
namespace LineScript

/-- The number of blocks after the lines: the file, one for each scope, and a handler for each
attempt. -/
def blockCount (lines : List Construct) : Nat :=
  1 + lines.countP Construct.opens + lines.countP Construct.isAttempt

/-- The block that an opening line opens, the last one made by then. -/
def openedBlock (lines : List Construct) (i : Nat) : Nat :=
  blockCount (lines.take (i + 1)) - 1

theorem blockCount_snoc (lines : List Construct) (c : Construct) :
    blockCount (lines ++ [c]) =
      blockCount lines + (if c.opens then 1 else 0) + (if c.isAttempt then 1 else 0) := by
  unfold blockCount
  rw [List.countP_append, List.countP_append, List.countP_singleton, List.countP_singleton]
  omega

theorem blockCount_snoc_of_not_opens (lines : List Construct) {c : Construct}
    (h : c.opens = false) : blockCount (lines ++ [c]) = blockCount lines := by
  rw [blockCount_snoc, h, Construct.isAttempt_eq_false_of_not_opens h]
  rfl

theorem blockCount_take_mono (lines : List Construct) {i j : Nat} (h : i ≤ j) :
    blockCount (lines.take i) ≤ blockCount (lines.take j) := by
  have hsublist : (lines.take i).Sublist (lines.take j) := List.take_sublist_take_left h
  have hopens := hsublist.countP_le (p := Construct.opens)
  have hattempts := hsublist.countP_le (p := Construct.isAttempt)
  unfold blockCount
  omega

theorem openedBlock_snoc {lines : List Construct} {i : Nat} (h : i < lines.length)
    (c : Construct) : openedBlock (lines ++ [c]) i = openedBlock lines i := by
  rw [openedBlock, openedBlock, List.take_append_of_le_length h]

theorem openedBlock_last (lines : List Construct) (c : Construct) :
    openedBlock (lines ++ [c]) lines.length = blockCount (lines ++ [c]) - 1 := by
  rw [openedBlock, List.take_of_length_le (by simp)]

theorem openedBlock_lt (lines : List Construct) (i : Nat) :
    openedBlock lines i < blockCount lines := by
  have hmono := blockCount_take_mono lines (Nat.le_max_left (i + 1) lines.length)
  rw [List.take_of_length_le (Nat.le_max_right _ _)] at hmono
  have hpositive : 0 < blockCount (lines.take (i + 1)) := by
    unfold blockCount
    omega
  unfold openedBlock
  omega

theorem openedBlock_lt_openedBlock {lines : List Construct} {i j : Nat} {o : Construct}
    (hij : i < j) (hj : lines[j]? = some o) (hopens : o.opens = true) :
    openedBlock lines i < openedBlock lines j := by
  have hmono : blockCount (lines.take (i + 1)) ≤ blockCount (lines.take j) :=
    blockCount_take_mono lines hij
  have hsnoc := blockCount_snoc (lines.take j) o
  rw [hopens, if_pos rfl] at hsnoc
  have htake : lines.take (j + 1) = lines.take j ++ [o] := by
    rw [List.take_add_one, hj]
    rfl
  have hpositive : 0 < blockCount (lines.take (i + 1)) := by
    unfold blockCount
    omega
  unfold openedBlock
  rw [htake]
  omega

theorem openedBlock_ne_zero {lines : List Construct} {i : Nat} {o : Construct}
    (hi : lines[i]? = some o) (hopens : o.opens = true) : openedBlock lines i ≠ 0 := by
  have hpos : 0 < (lines.take (i + 1)).countP Construct.opens := by
    rw [List.countP_pos_iff]
    exact ⟨o, List.mem_of_getElem? (by rw [List.getElem?_take_of_lt (Nat.lt_succ_self i), hi]), hopens⟩
  unfold openedBlock blockCount
  omega

theorem openedBlock_inj {lines : List Construct} {i j : Nat} {o o' : Construct}
    (hi : lines[i]? = some o) (hj : lines[j]? = some o') (hopens : o.opens = true)
    (hopens' : o'.opens = true) (h : openedBlock lines i = openedBlock lines j) : i = j := by
  rcases Nat.lt_trichotomy i j with hlt | heq | hgt
  · exact absurd h (Nat.ne_of_lt (openedBlock_lt_openedBlock hlt hj hopens'))
  · exact heq
  · exact absurd h (Nat.ne_of_gt (openedBlock_lt_openedBlock hgt hi hopens))

theorem getElem?_snoc_cases {lines : List Construct} {c o : Construct} {i : Nat}
    (h : (lines ++ [c])[i]? = some o) :
    i < lines.length ∧ lines[i]? = some o ∨ i = lines.length ∧ c = o := by
  rw [List.getElem?_append] at h
  split_ifs at h with hlt
  · exact Or.inl ⟨hlt, h⟩
  · rw [List.getElem?_singleton] at h
    split_ifs at h with hzero
    exact Or.inr ⟨by omega, Option.some.inj h⟩

theorem Nested.lt_length {lines : List Construct} {stack : List Nat} (h : Nested lines stack) :
    ∀ i ∈ stack, i < lines.length := by
  induction h with
  | outside _ => simp
  | inside _ _ _ ih =>
    intro i hi
    rw [List.length_append]
    rcases List.mem_cons.mp hi with rfl | hi
    · exact Nat.lt_add_of_pos_right (by simp)
    · exact Nat.lt_add_right _ (ih i hi)

/-- The block around a line: that of the innermost line still open there, or the file. -/
inductive Around (lines : List Construct) (i : Nat) : Nat → Prop where
  | file (h : Balanced (lines.take i)) : Around lines i 0
  | line {j : Nat} (h : Encloses lines j i) : Around lines i (openedBlock lines j)

theorem Around.snoc {lines : List Construct} {i p : Nat} (h : Around lines i p)
    (hi : i ≤ lines.length) (c : Construct) : Around (lines ++ [c]) i p := by
  cases h with
  | file h =>
    refine .file ?_
    rwa [List.take_append_of_le_length hi]
  | line h =>
    rw [← openedBlock_snoc (Nat.lt_of_lt_of_le h.1 hi) c]
    exact .line (h.append hi [c])

theorem Nested.around {lines : List Construct} {stack : List Nat} {i : Nat} {p : Nat}
    {rest : List Nat} (h : Nested lines (i :: stack))
    (hp : p :: rest = stack.map (openedBlock lines) ++ [0]) : Around lines i p := by
  cases stack with
  | nil =>
    obtain ⟨rfl, _⟩ := List.cons.inj hp
    exact .file h.take_balanced
  | cons j stack =>
    obtain ⟨rfl, _⟩ := List.cons.inj hp
    exact .line h.encloses

namespace Store

/-- All blocks that are held, each as often as it is. -/
def children (s : Store) : List BlockId :=
  s.blocks.toList.flatMap Block.children

/-- A block that is held once by one block and by no other is held once in the whole store. -/
theorem count_flatMap_children {blocks : List Block} {b p : Nat} (hp : p < blocks.length)
    (h : ∀ i block, blocks[i]? = some block → block.children.count b = if p = i then 1 else 0) :
    (blocks.flatMap Block.children).count b = 1 := by
  induction blocks generalizing p with
  | nil => cases hp
  | cons first rest ih =>
    have hfirst := h 0 first rfl
    rw [List.flatMap_cons, List.count_append, hfirst]
    cases p with
    | zero =>
      have hrest : b ∉ rest.flatMap Block.children := by
        rw [List.mem_flatMap]
        rintro ⟨block, hmem, hchild⟩
        obtain ⟨i, hi⟩ := List.getElem?_of_mem hmem
        have hcount := h (i + 1) block hi
        rw [if_neg (by omega), List.count_eq_zero] at hcount
        exact hcount hchild
      rw [List.count_eq_zero.mpr hrest]
      rfl
    | succ p =>
      rw [ih (Nat.lt_of_succ_lt_succ hp)]
      · rfl
      · intro i block hi
        rw [h (i + 1) block hi]
        simp only [Nat.add_right_cancel_iff]

theorem count_children_eq_one {s : Store} {b p : Nat}
    (h : ∀ i : Nat, (s.childrenOf i).count b = if p = i then 1 else 0) :
    s.children.count b = 1 := by
  apply count_flatMap_children
  · apply Nat.lt_of_not_le
    intro hle
    have hcount := h p
    rw [childrenOf_of_size_le (by exact hle), if_pos rfl] at hcount
    cases hcount
  · intro i block hblock
    rw [← h i, childrenOf_of_get?]
    rwa [Array.getElem?_toList] at hblock

end Store

namespace Scopes

/-- The blocks made so far are those of the lines read so far. -/
structure Mirrors (lines : List Construct) (s : Scopes) : Prop where
  linked : s.Linked
  size : s.store.size = blockCount lines
  nested : ∃ stack, Nested lines stack ∧ s.openBlocks = stack.map (openedBlock lines) ++ [0]
  around : ∀ i o p, lines[i]? = some o → o.opens = true →
    s.store.rootOf (openedBlock lines i) = some p → Around lines i p

namespace Mirrors

variable {lines : List Construct} {c : Construct} {s t : Scopes}

theorem start (name : String) (isModule : Bool) (deps : List Dependency) :
    Mirrors [] (Scopes.start name isModule deps) where
  linked := .start name isModule deps
  size := rfl
  nested := ⟨[], .outside .nil, rfl⟩
  around i o p hi := by simp at hi

theorem sameLinks (h : Mirrors lines s) (hsame : s.SameLinks t) : Mirrors lines t where
  linked := h.linked.sameLinks hsame
  size := hsame.size.trans h.size
  nested := by rw [hsame.openBlocks]; exact h.nested
  around i o p hi hopens hroot := h.around i o p hi hopens (hsame.root _ ▸ hroot)

theorem map_openedBlock_snoc {stack : List Nat} (h : Nested lines stack) (c : Construct) :
    stack.map (openedBlock (lines ++ [c])) = stack.map (openedBlock lines) :=
  List.map_congr_left fun i hi => openedBlock_snoc (h.lt_length i hi) c

theorem snoc_other (h : Mirrors lines s) (hopens : c.opens = false) (hcloses : c.closes = false) :
    Mirrors (lines ++ [c]) s where
  linked := h.linked
  size := by rw [blockCount_snoc_of_not_opens lines hopens, h.size]
  nested := by
    obtain ⟨stack, hnested, hopen⟩ := h.nested
    refine ⟨stack, hnested.snoc_other hopens hcloses, ?_⟩
    rw [map_openedBlock_snoc hnested, hopen]
  around i o p hi hopener hroot := by
    rcases getElem?_snoc_cases hi with ⟨hlt, hi⟩ | ⟨_, rfl⟩
    · rw [openedBlock_snoc hlt] at hroot
      exact (h.around i o p hi hopener hroot).snoc (Nat.le_of_lt hlt) c
    · rw [hopens] at hopener
      cases hopener

theorem opened_size (h : Mirrors lines s) (hopens : c.opens = true) {o : Opened}
    (hopening : s.Opening c o) (log : List LogEntry) :
    (s.opened o log).store.size = blockCount (lines ++ [c]) := by
  have hlength : o.made.length = 1 + if c.isAttempt then 1 else 0 := by
    rcases hopening.made_cases with ⟨hattempt, _, hmade, _⟩ | ⟨hattempt, _, _, hmade, _⟩ <;>
      simp [hattempt, hmade]
  rw [blockCount_snoc, hopens, if_pos rfl, ← h.size]
  simp only [Scopes.opened, Store.size_extend, hlength]
  omega

theorem opened_block (h : Mirrors lines s) (hopens : c.opens = true) {o : Opened}
    (hopening : s.Opening c o) (log : List LogEntry) :
    (s.opened o log).current.block = openedBlock (lines ++ [c]) lines.length := by
  rw [openedBlock_last, ← h.opened_size hopens hopening log]
  simp only [Scopes.opened, Store.size_extend]

theorem opened (h : Mirrors lines s) (hopens : c.opens = true) {o : Opened}
    (hopening : s.Opening c o) (log : List LogEntry) :
    Mirrors (lines ++ [c]) (s.opened o log) := by
  have hlinked := h.linked.opened hopening log
  have hblock := h.opened_block hopens hopening log
  refine ⟨hlinked, h.opened_size hopens hopening log, ?_, ?_⟩
  · obtain ⟨stack, hnested, hopen⟩ := h.nested
    refine ⟨lines.length :: stack, hnested.snoc_opens hopens, ?_⟩
    rw [List.map_cons, map_openedBlock_snoc hnested, List.cons_append, ← hopen, ← hblock]
    rfl
  · intro i o' p hi hopener hroot
    rcases getElem?_snoc_cases hi with ⟨hlt, hi⟩ | ⟨rfl, _⟩
    · rw [openedBlock_snoc hlt, Scopes.opened,
        Store.rootOf_extend_of_lt (h.size ▸ openedBlock_lt lines i)] at hroot
      exact (h.around i o' p hi hopener hroot).snoc (Nat.le_of_lt hlt) c
    · have hmem : (s.opened o log).current.block ∈ (s.opened o log).openBlocks :=
        List.mem_cons_self
      rw [← hblock, (hlinked.rootless _ (hlinked.openBlocks_lt _ hmem)).mpr hmem] at hroot
      cases hroot

theorem closes (h : Mirrors lines s) (hcloses : c.closes = true) (hmove : s.Closes t) :
    Mirrors (lines ++ [c]) t := by
  have hopens := Construct.opens_eq_false_of_closes hcloses
  have hlinked := h.linked.closes hmove
  obtain ⟨stack, hnested, hopen⟩ := h.nested
  obtain ⟨parent, outer, block, inner, log, houter, hgt, hblock, _, hinner, hroot, _, rfl⟩ :=
    h.linked.attach_of_closes hmove
  rw [openBlocks, all, houter, List.map_cons, List.map_cons] at hopen
  cases stack with
  | nil => simp at hopen
  | cons j stack =>
    rw [List.map_cons, List.cons_append, List.cons.injEq] at hopen
    obtain ⟨hcurrent, hopen⟩ := hopen
    refine ⟨hlinked, ?_, ⟨stack, hnested.snoc_closes hcloses, ?_⟩, ?_⟩
    · rw [Store.size_attach, h.size, blockCount_snoc_of_not_opens lines hopens]
    · have hlt : ∀ i ∈ stack, i < lines.length :=
        fun i hi => hnested.lt_length i (List.mem_cons_of_mem _ hi)
      rw [List.map_congr_left fun i hi => openedBlock_snoc (hlt i hi) c, ← hopen]
      rfl
    · intro i o p hi hopener hroot'
      rcases getElem?_snoc_cases hi with ⟨hlt, hi⟩ | ⟨_, rfl⟩
      · rw [openedBlock_snoc hlt, Store.rootOf_attach hinner hblock (Nat.ne_of_gt hgt)] at hroot'
        by_cases heq : openedBlock lines i = s.current.block
        · rw [if_pos heq] at hroot'
          obtain rfl := Option.some.inj hroot'
          obtain ⟨o', hj, hopener'⟩ := hnested.opener
          obtain rfl := openedBlock_inj hi hj hopener hopener' (heq.trans hcurrent)
          exact (hnested.around hopen).snoc (Nat.le_of_lt hlt) c
        · rw [if_neg heq] at hroot'
          exact (h.around i o p hi hopener hroot').snoc (Nat.le_of_lt hlt) c
      · rw [hopens] at hopener
        cases hopener

theorem of_runs {name : String} {isModule : Bool} {deps : List Dependency}
    (hruns : (Scopes.start name isModule deps).Runs lines s) : Mirrors lines s :=
  hruns.invariant Mirrors (start name isModule deps)
    (fun _ _ _ _ hmove h => h.sameLinks hmove.sameLinks)
    (fun _ _ _ hopens hcloses h => h.snoc_other hopens hcloses)
    (fun _ _ _ _ log hopens hopening h => h.opened hopens hopening log)
    (fun _ _ _ _ hcloses hmove h => h.closes hcloses hmove)

theorem balanced (h : Mirrors lines s) (houter : s.outer = []) : Balanced lines := by
  obtain ⟨stack, hnested, hopen⟩ := h.nested
  rw [openBlocks, all, houter] at hopen
  cases stack with
  | nil => exact hnested.balanced
  | cons j stack => simp at hopen

/-- The innermost open scope after an opening line is the one that the line opens. -/
theorem current_of_runs {name : String} {isModule : Bool} {deps : List Dependency}
    (hruns : (Scopes.start name isModule deps).Runs (lines ++ [c]) s) (hopens : c.opens = true) :
    s.current.block = openedBlock (lines ++ [c]) lines.length := by
  obtain ⟨t, log, hfront, happlied⟩ := hruns.snoc_inv
  cases happlied with
  | opens log' _ hopening =>
    exact opened_block ((of_runs hfront).sameLinks (Stays.note c log).sameLinks) hopens hopening log'
  | closes hcloses _ => rw [Construct.closes_eq_false_of_opens hopens] at hcloses; cases hcloses
  | stays hnot _ _ => rw [hopens] at hnot; cases hnot

end Mirrors

namespace Linked

variable {s : Scopes}

theorem count_children (h : s.Linked) {b p : Nat} (hroot : s.store.rootOf b = some p) :
    s.store.children.count b = 1 := by
  apply Store.count_children_eq_one (p := p)
  intro i
  simp only [h.held, hroot, Option.some.injEq]

end Linked

end Scopes

/-- Line `i` of the script opens block `b`: it is the block of the innermost scope once the line
has been read. -/
def OpensBlock (settings : Settings) (script : Script) (i b : Nat) : Prop :=
  ∃ s, Scopes.after settings script (i + 1) = some s ∧ s.current.block = b

theorem opensBlock_of_runs {settings : Settings} {script : Script} {deps : List Dependency}
    {lines : List Construct} {i : Nat} {o : Construct}
    (h : ∀ n, ∃ s, Scopes.after settings script n = some s ∧
      (Scopes.start script.stem settings.isModule deps).Runs (lines.take n) s)
    (hi : lines[i]? = some o) (hopens : o.opens = true) :
    OpensBlock settings script i (openedBlock lines i) := by
  obtain ⟨s, hafter, hruns⟩ := h (i + 1)
  refine ⟨s, hafter, ?_⟩
  have htake : lines.take (i + 1) = lines.take i ++ [o] := by
    rw [List.take_add_one, hi]
    rfl
  have hlength : (lines.take i).length = i := by
    obtain ⟨hlt, _⟩ := List.getElem?_eq_some_iff.mp hi
    exact List.length_take_of_le (Nat.le_of_lt hlt)
  rw [htake] at hruns
  rw [Scopes.Mirrors.current_of_runs hruns hopens, openedBlock_last, ← htake, openedBlock]

/-- The blocks of a compiled script form one tree, which mirrors the nesting of its lines. The
lines that open scopes and those that close them are balanced, and all blocks come from them.
Every block but the file is held once in the whole store, by its root, and can be reached from the
file. The root of a block that a line opens is the block of the innermost line still open there,
or the file. -/
theorem compile_mirrors_nesting {settings : Settings} {script : Script} {program : Program}
    {log : List LogEntry} (h : compile settings script = (.ok program, log)) :
    ∃ lines, script.lines.mapM (fun line => Line.classify line.2) = .ok lines ∧
      Balanced lines ∧
      program.store.size =
        1 + lines.countP Construct.opens + lines.countP Construct.isAttempt ∧
      (∀ b block, program.store.get? b = some block →
        (block.kind.isFile = true ↔ b = program.root)) ∧
      (∀ b, b < program.store.size → b ≠ program.root →
        program.store.children.count b = 1 ∧
          ∀ p, program.store.Holds p b ↔ program.store.rootOf b = some p) ∧
      (∀ i o, lines[i]? = some o → o.opens = true →
        ∃ b p, OpensBlock settings script i b ∧ program.store.rootOf b = some p ∧
          ((∃ j, Encloses lines j i ∧ OpensBlock settings script j p) ∨
            Balanced (lines.take i) ∧ p = program.root)) ∧
      ∀ b, b < program.store.size → Relation.ReflTransGen program.store.Holds program.root b := by
  obtain ⟨deps, lines, final, hlines, hruns, houter, rfl, hafter⟩ := compile_ok h
  have hmirrors := Scopes.Mirrors.of_runs hruns
  have hlinked := hmirrors.linked
  have hfile : final.file = 0 := hlinked.file
  refine ⟨lines, hlines, hmirrors.balanced houter, hmirrors.size, ?_, ?_, ?_, ?_⟩
  · intro b block hblock
    rw [← block.kind.isFile_fixed, hfile]
    exact hlinked.files b _ (Store.kindOf_of_get? hblock)
  · intro b hb hne
    obtain ⟨p, hp⟩ := hlinked.rootOf_isSome houter hb (hfile ▸ hne)
    exact ⟨hlinked.count_children hp, fun p => hlinked.mem_childrenOf⟩
  · intro i o hi hopens
    have hlt : openedBlock lines i < final.store.size := hmirrors.size ▸ openedBlock_lt lines i
    obtain ⟨p, hp⟩ := hlinked.rootOf_isSome houter hlt (openedBlock_ne_zero hi hopens)
    refine ⟨openedBlock lines i, p, opensBlock_of_runs hafter hi hopens, hp, ?_⟩
    cases hmirrors.around i o p hi hopens hp with
    | file hbalanced => exact Or.inr ⟨hbalanced, hfile.symm⟩
    | line hencloses =>
      obtain ⟨o', hj, hopens'⟩ := hencloses.2.1
      exact Or.inl ⟨_, hencloses, opensBlock_of_runs hafter hj hopens'⟩
  · intro b hb
    rw [hfile]
    exact hlinked.reachable houter b hb

theorem compile_mirrors_nesting_handlers :
    ∃ program log lines,
      compile {} (.ofSource "a" "try \x7b\nsignal INT(s) \x7b\n\x7d\n\x7d\n\x7b\n\x7d") =
        (.ok program, log) ∧
      program.store.size = 5 ∧
      Balanced lines ∧
      program.store.size =
        1 + lines.countP Construct.opens + lines.countP Construct.isAttempt ∧
      ∀ b, b < program.store.size → Relation.ReflTransGen program.store.Holds program.root b := by
  obtain ⟨program, log, h, hfive⟩ := exists_of_compile_any {}
    (.ofSource "a" "try \x7b\nsignal INT(s) \x7b\n\x7d\n\x7d\n\x7b\n\x7d")
    (fun program => program.store.size == 5) (by decide +kernel)
  obtain ⟨lines, _, hbalanced, hsize, _, _, _, hreachable⟩ := compile_mirrors_nesting h
  exact ⟨program, log, lines, h, beq_iff_eq.mp hfive, hbalanced, hsize, hreachable⟩

end LineScript
