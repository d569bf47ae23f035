import LineScript.Proofs.Indentation
import LineScript.Proofs.Rendering
import LineScript.Proofs.Replay

/-!
# Imports

An import puts its line at the head of the file, wherever it stands, and does nothing else. A script
therefore compiles as the script that has comments in place of its imports, to blocks that are alike
but for these lines, and the two programs differ in the lines only.
-/
namespace LineScript

section Lines

/-- The modules that a line brings in: one if it is an import. -/
def Line.imports (line : String) : Except Fault (List Dependency) := do
  match ← Line.classify line with
  | .importModule path symbols => return [← Dependency.make path symbols]
  | _ => return []

/-- The imports of a script in their order. -/
def Script.imports (script : Script) : Except Fault (List Dependency) := do
  return (← script.lines.mapM fun line => Line.imports line.2).flatten

theorem Construct.exists_of_isImport {c : Construct} (h : c.isImport = true) :
    ∃ path symbols, c = .importModule path symbols := by
  cases c with
  | importModule path symbols => exact ⟨path, symbols, rfl⟩
  | blank | comment | openScope | closeScope | package _ | declare _ _ _ | assign _ _
  | methodChain _ _ | routine _ _ _ | giveBack _ | condition _ _ | loop _ _ | attempt
  | signal _ _ | print _ | exit _ => cases h

def Line.isImport (line : String) : Bool :=
  (Line.classify line).toOption.any Construct.isImport

/-- The other line is a comment if the line is an import, and the line itself if not. -/
def Line.Mutes (line other : String) : Prop :=
  if Line.isImport line then Line.classify other = .ok .comment else other = line

/-- The other script has comments in place of the imports. -/
structure Script.Mutes (script other : Script) : Prop where
  name : other.name = script.name
  path : other.path = script.path
  lines : List.Forall₂ (fun line other => Line.Mutes line.2 other.2) script.lines other.lines

theorem Line.Mutes.cases {line other : String} {c : Construct} (h : Line.Mutes line other)
    (hc : Line.classify line = .ok c) :
    (c.isImport = true ∧ Line.classify other = .ok .comment) ∨
      (c.isImport = false ∧ other = line) := by
  have himport : Line.isImport line = c.isImport := by
    rw [isImport, hc]
    rfl
  unfold Line.Mutes at h
  rw [himport] at h
  cases hcase : c.isImport with
  | true =>
    rw [hcase, if_pos rfl] at h
    exact Or.inl ⟨rfl, h⟩
  | false =>
    rw [hcase, if_neg Bool.false_ne_true] at h
    exact Or.inr ⟨rfl, h⟩

theorem Line.imports_of_not_isImport {line : String} {c : Construct}
    (hc : Line.classify line = .ok c) (h : c.isImport = false) : Line.imports line = .ok [] := by
  rw [imports, hc]
  cases c with
  | importModule _ _ => cases h
  | blank | comment | openScope | closeScope | package _ | declare _ _ _ | assign _ _
  | methodChain _ _ | routine _ _ _ | giveBack _ | condition _ _ | loop _ _ | attempt
  | signal _ _ | print _ | exit _ => rfl

/-- The line with an empty comment in its place if it is an import. -/
def Line.muted (line : String) : String :=
  if Line.isImport line then "//" else line

theorem Line.mutes_muted (line : String) : Line.Mutes line (Line.muted line) := by
  unfold Mutes muted
  split_ifs
  · rfl
  · rfl

/-- The script with an empty comment in place of every import. -/
def Script.muted (script : Script) : Script :=
  let pieces := (script.content.toList.splitOn '\n').map fun piece =>
    if Line.isImport (String.ofList (Text.dropReturn piece)) then ['/', '/'] else piece
  { script with content := String.ofList (List.intercalate ['\n'] pieces) }

theorem Script.sourceLines_muted (script : Script) :
    Text.sourceLines script.muted.content = (Text.sourceLines script.content).map Line.muted := by
  unfold muted Text.sourceLines
  rw [String.toList_ofList, List.splitOn_intercalate, List.map_map, List.map_map]
  · apply List.map_congr_left
    intro piece _
    simp only [Function.comp_apply, Line.muted]
    split_ifs
    · rfl
    · rfl
  · intro piece hpiece
    obtain ⟨old, hold, rfl⟩ := List.mem_map.mp hpiece
    split_ifs
    · decide
    · exact not_mem_of_mem_splitOn hold
  · rw [ne_eq, List.map_eq_nil_iff]
    exact List.splitOn_ne_nil _ _

theorem Script.mutes_muted (script : Script) : script.Mutes script.muted := by
  refine ⟨rfl, rfl, ?_⟩
  unfold lines
  rw [sourceLines_muted, List.zipIdx_map, List.map_map, List.forall₂_map_left_iff,
    List.forall₂_map_right_iff, List.forall₂_same]
  exact fun line _ => Line.mutes_muted line.1

end Lines

section Hoisting

def useElements (deps : List Dependency) : List Element :=
  deps.map fun d => .statement (.dependency d)

/-- The lines that bring in the modules, one after the other. -/
def useText (deps : List Dependency) : String :=
  String.join (deps.map Dependency.text)

/-- The file has further dependencies at its head, before the preamble; other blocks are the
same. -/
def Hoisted (front preamble : List Dependency) (id : BlockId) (es es' : List Element) : Prop :=
  if id = 0 then es = useElements front ++ es' ∧ useElements preamble <+: es' else es' = es

variable {front preamble : List Dependency}

theorem lastBlock?_useElements_append (deps : List Dependency) (es : List Element) :
    lastBlock? (useElements deps ++ es) = lastBlock? es := by
  unfold lastBlock?
  rw [List.reverse_append, List.find?_append]
  cases es.reverse.find? Element.isSolid with
  | some e => rfl
  | none =>
    rw [Option.none_or]
    cases hfound : (useElements deps).reverse.find? Element.isSolid with
    | none => rfl
    | some e =>
      have hmem := List.mem_reverse.mp (List.mem_of_find?_eq_some hfound)
      obtain ⟨d, _, rfl⟩ := List.mem_map.mp hmem
      rfl

theorem inert_hoisted (front preamble : List Dependency) : Inert (Hoisted front preamble) := by
  constructor
  · intro id es hid
    rw [Hoisted, if_neg (Nat.ne_of_gt hid)]
  · intro id es es' e h
    unfold Hoisted at h ⊢
    split_ifs at h ⊢
    · exact ⟨by rw [h.1, List.append_assoc], h.2.trans (List.prefix_append _ _)⟩
    · rw [h]
  · intro id es es' h
    unfold Hoisted at h
    split_ifs at h
    · rw [h.1, lastBlock?_useElements_append]
    · rw [h]

namespace Scopes

variable {s t s' : Scopes}

theorem Alike.withLog {R : BlockId → List Element → List Element → Prop} (h : s.Alike R t)
    (log log' : List LogEntry) :
    ({ s with log := log } : Scopes).Alike R { t with log := log' } := by
  obtain ⟨store, _, hstore, rfl⟩ := h
  exact ⟨store, log', hstore, rfl⟩

/-- An import changes the head of the file, and the scopes are alike as before but for this. -/
theorem Alike.hoist {info : FileInfo} (h : s.Alike (Hoisted front preamble) t)
    (hzero : s.file = 0) (hfile : s.store.kindOf 0 = some (.file info))
    (hdone : info.headerDone = true) {d : Dependency} {store : Store}
    (happend : Succeeds (Edit.append s.file (.statement (.dependency d))) s.store () store)
    (log : List LogEntry) :
    ({ s with store := store, log := log } : Scopes).Alike (Hoisted (d :: front) preamble) t := by
  obtain ⟨other, log', hstore, rfl⟩ := h
  rw [hzero] at happend
  obtain ⟨block, found, hblock, _, hkind, rfl⟩ := Edit.append_dependency_ok happend
  rw [Store.kindOf_of_get? hblock, hkind] at hfile
  have hheader : found.headerDone = true := by
    rw [← hdone, ← BlockKind.file.inj (Option.some.inj hfile)]
  rw [if_pos hheader]
  refine ⟨other, log', ⟨hstore.fresh, ?_, ?_, ?_⟩, rfl⟩
  · rw [Store.size_replace, hstore.size]
  · rw [Store.size_replace]
    exact hstore.nonempty
  intro id b hb
  by_cases hid : id = 0
  · subst hid
    rw [Store.get?_replace_self (Store.lt_size_of_get? hblock), Option.some.injEq] at hb
    obtain ⟨b', hb', halike⟩ := hstore.block 0 block hblock
    obtain ⟨hfront, hpreamble⟩ := halike.elements
    subst hb
    refine ⟨b', hb', halike.kind, halike.closed, halike.root, ?_, hpreamble⟩
    exact congrArg (List.cons _) hfront
  · rw [Store.get?_replace_of_ne _ hid] at hb
    obtain ⟨b', hb', halike⟩ := hstore.block id b hb
    have helements := halike.elements
    rw [Hoisted, if_neg hid] at helements
    exact ⟨b', hb', halike.kind, halike.closed, halike.root, by rw [Hoisted, if_neg hid, helements]⟩

section Replay

variable {name : String} {isModule : Bool} {deps : List Dependency} {file : String}

/-- A line and what mutes it lead from scopes that are alike to scopes that are alike again, with
the import in front if the line is one. -/
theorem applyLine_mutes {lines : List Construct} {line other : String} {number row : Nat}
    (hruns : (start name isModule deps).Runs lines s) (h : s.Alike (Hoisted front preamble) t)
    (hmutes : Line.Mutes line other)
    (hline : Succeeds (Session.applyLine file number line) s () s') :
    ∃ c new t', (start name isModule deps).Runs (lines ++ [c]) s' ∧ Line.imports line = .ok new ∧
      Succeeds (Session.applyLine file row other) t () t' ∧
      s'.Alike (Hoisted (new.reverse ++ front) preamble) t' := by
  obtain ⟨c, hc, happly⟩ := Session.applyLine_ok_iff.mp hline
  have hnext : (start name isModule deps).Runs (lines ++ [c]) s' :=
    .snoc _ hruns (Session.apply_ok happly)
  obtain ⟨hlinked, hnamed⟩ := hruns.linked_named
  rcases hmutes.cases hc with ⟨himport, hcomment⟩ | ⟨himport, rfl⟩
  -- An import goes to the file and not to the open scope, so that the comment has nothing to match.
  · obtain ⟨path, symbols, rfl⟩ := Construct.exists_of_isImport himport
    obtain ⟨d, store, log, hd, happend, rfl⟩ := Session.applyImport_edits happly
    obtain ⟨log', hother⟩ : ∃ log', Succeeds (Session.applyLine file row other) t ()
        { t with log := log' } :=
      ⟨_, Session.applyLine_ok_iff.mpr ⟨_, hcomment, (succeeds_pure _ _ _ _).mpr ⟨rfl, rfl⟩⟩⟩
    refine ⟨_, [d], _, hnext, ?_, hother, ?_⟩
    · simp only [Line.imports, hc, hd, bind, Except.bind, pure, Except.pure]
    · exact (h.withLog _ log').hoist hlinked.file (file_of_runs hruns) rfl happend log
  · obtain ⟨t', happly', halike⟩ := Session.apply_repeats (inert_hoisted front preamble)
      (hlinked.sameLinks (Stays.sameLinks (.note c _))) (hnamed.stays (.note c _))
      (h.withLog _ (t.log ++ [⟨.debug, s!"{file}:{row} {c.label}"⟩])) himport () s' happly
    exact ⟨c, [], t', hnext, Line.imports_of_not_isImport hc himport,
      Session.applyLine_ok_iff.mpr ⟨c, hc, happly'⟩, halike⟩

/-- The imports of a run come to stand in front, the last one first. -/
theorem applyLines_mutes {constructs : List Construct} {lines others : List (Nat × String)}
    (hruns : (start name isModule deps).Runs constructs s) (h : s.Alike (Hoisted front preamble) t)
    (hmutes : List.Forall₂ (fun line other => Line.Mutes line.2 other.2) lines others)
    (hlines : applyLines file lines s = (.ok (), s')) :
    ∃ imports t', lines.mapM (fun line => Line.imports line.2) = .ok imports ∧
      applyLines file others t = (.ok (), t') ∧
      s'.Alike (Hoisted (imports.flatten.reverse ++ front) preamble) t' := by
  induction hmutes generalizing s t front constructs with
  | nil =>
    obtain rfl := congrArg Prod.snd hlines
    exact ⟨[], t, rfl, rfl, h⟩
  | @cons line other lines others hfirst _ ih =>
    obtain ⟨number, text⟩ := line
    obtain ⟨row, text'⟩ := other
    obtain ⟨u, hline, hrest⟩ := applyLines_cons_iff.mp hlines
    obtain ⟨c, new, u', hnext, hnew, hline', halike⟩ := applyLine_mutes hruns h hfirst hline
    obtain ⟨imports, t', himports, hrest', halike'⟩ := ih hnext halike hrest
    refine ⟨new :: imports, t', ?_, applyLines_cons_iff.mpr ⟨u', hline', hrest'⟩, ?_⟩
    · rw [List.mapM_cons, hnew, himports]
      rfl
    · rw [List.flatten_cons, List.reverse_append, List.append_assoc]
      exact halike'

theorem start_alike (name : String) (isModule : Bool) (deps : List Dependency) :
    (start name isModule deps).Alike (Hoisted [] deps) (start name isModule deps) := by
  refine ⟨_, _, ⟨rfl, rfl, Nat.zero_lt_one, fun id b hb => ⟨b, hb, rfl, rfl, rfl, ?_⟩⟩, rfl⟩
  obtain ⟨rfl, rfl⟩ := get?_start hb
  exact ⟨rfl, List.prefix_append _ _⟩

theorem Linked.zero_notMem_childrenOf (h : s.Linked) (id : BlockId) :
    0 ∉ s.store.childrenOf id := by
  intro hmem
  have hroot : s.store.rootOf 0 = some id := h.mem_childrenOf.mp hmem
  have hopen : s.store.rootOf 0 = none :=
    (h.rootless 0 h.zero_lt_size).mpr (List.mem_of_getLast? h.outermost)
  cases hroot.symm.trans hopen

end Replay

end Scopes

end Hoisting

namespace Store

variable {s t : Store} {front preamble : List Dependency}

section Texts

variable {R : BlockId → List Element → List Element → Prop}
  {blockText blockText' routineText : BlockId → Except Fault String} {block : Block}

theorem child_ne_zero (hrootless : ∀ id, 0 ∉ s.childrenOf id) {id : BlockId} {b : Block}
    (hb : s.get? id = some b) (e : Element) (he : e ∈ b.elements) : e.child? ≠ some 0 := by
  intro hchild
  apply hrootless id
  rw [childrenOf_of_get? hb]
  exact mem_children_of_element he hchild

theorem Alike.handlerText (h : s.Alike R t) (signal : Signal) (id : BlockId) :
    t.handlerText routineText signal id = s.handlerText routineText signal id := by
  unfold Store.handlerText
  exact h.block_bind id fun b b' hkind => by simp only [hkind]

/-- Given the texts of blocks, that of an element that holds other blocks than the file is the same
in both stores. -/
theorem Alike.elementTextBy (h : s.Alike R t) (hblock : ∀ id ≠ 0, blockText' id = blockText id)
    {e : Element} (he : e.child? ≠ some 0) :
    t.elementTextBy blockText' routineText e = s.elementTextBy blockText routineText e := by
  cases e with
  | text _ | value _ | method _ => rfl
  | block child => exact hblock child fun hzero => he (congrArg some hzero)
  | statement content =>
    cases content with
    | signal signal routine => exact h.handlerText signal routine
    | dependency _ | binding _ | giveBack _ | print _ | assign _ | exit _ | package _ => rfl

theorem Alike.bodyTextBy (h : s.Alike R t) (hblock : ∀ id ≠ 0, blockText' id = blockText id)
    (hchildren : ∀ e ∈ block.elements, e.child? ≠ some 0) :
    t.bodyTextBy blockText' routineText block = s.bodyTextBy blockText routineText block := by
  unfold Store.bodyTextBy
  rw [except_mapM_congr fun e he => h.elementTextBy hblock (hchildren e he)]

theorem kindText_eq_of_companion (hblock : ∀ id ≠ 0, blockText' id = blockText id)
    (hcompanion : block.kind.companion ≠ some 0) (body : Except Fault String) :
    kindText blockText' routineText block body = kindText blockText routineText block body := by
  unfold kindText
  cases hkind : block.kind with
  | evaluation handler =>
    rw [hkind] at hcompanion
    simp only [hblock handler fun hzero => hcompanion (congrArg some hzero)]
  | plain | file _ | routine _ | condition _ | arrayLoop _ | mapLoop _ => rfl

/-- Dependencies at the head of a block are written first. -/
theorem bodyTextBy_useElements {deps : List Dependency} {es : List Element}
    (h : block.elements = useElements deps ++ es) :
    s.bodyTextBy blockText routineText block =
      (s.bodyTextBy blockText routineText { block with elements := es }).map
        (useText deps ++ ·) := by
  have hdeps : (useElements deps).mapM (s.elementTextBy blockText routineText) =
      .ok (deps.map Dependency.text) := by
    rw [except_mapM_ok, useElements, List.forall₂_map_left_iff, List.forall₂_map_right_iff,
      List.forall₂_same]
    exact fun _ _ => rfl
  rw [bodyTextBy, bodyTextBy, h, List.mapM_append, hdeps]
  cases es.mapM (s.elementTextBy blockText routineText) with
  | error fault => rfl
  | ok texts => exact congrArg Except.ok String.join_append

/-- The text of a file is its body. -/
theorem blockText_of_file {id : BlockId} {info : FileInfo} (hblock : s.get? id = some block)
    (hfixed : block.kind.fixed = .file info) :
    s.blockText id =
      s.bodyTextBy (s.blockWithin s.size) (s.routineTextBy (s.bodyWithin s.size)) block := by
  rw [blockText, depthBound, blockWithin, (block_ok _ _ _).mpr hblock]
  change kindText _ _ block _ = _
  cases hkind : block.kind with
  | file _ => simp only [kindText, hkind]
  | plain | routine _ | condition _ | arrayLoop _ | mapLoop _ | evaluation _ =>
    rw [hkind] at hfixed
    cases hfixed

end Texts

section Programs

variable {info : FileInfo} (h : s.Alike (Hoisted front preamble) t)
  (hfile : s.kindOf 0 = some (.file info)) (hrootless : ∀ id, 0 ∉ s.childrenOf id)

include h

theorem Alike.block_eq {id : BlockId} (hid : id ≠ 0) : t.block id = s.block id := by
  unfold Store.block
  cases hget : s.get? id with
  | none => rw [h.get?_none hget]
  | some b =>
    obtain ⟨b', hb', hkind, hclosed, hroot, helements⟩ := h.block id b hget
    rw [Hoisted, if_neg hid] at helements
    have heq : b' = b := by
      cases b'
      cases hkind
      cases hclosed
      cases hroot
      cases helements
      rfl
    rw [hb', heq]

include hfile

theorem Alike.routineTextBy {bodyText bodyText' : BlockId → Except Fault String}
    (hbody : ∀ id ≠ 0, bodyText' id = bodyText id) :
    t.routineTextBy bodyText' = s.routineTextBy bodyText := by
  funext id
  by_cases hid : id = 0
  -- The file is no routine, so that both stores refuse to write it out as one.
  · subst hid
    obtain ⟨b, hb, hfixed⟩ := Option.map_eq_some_iff.mp hfile
    obtain ⟨b', hb', halike⟩ := h.block 0 b hb
    unfold Store.routineTextBy
    rw [(Store.block_ok _ _ _).mpr hb, (Store.block_ok _ _ _).mpr hb']
    simp only [bind, Except.bind, halike.kind]
    cases hkind : b.kind with
    | routine _ =>
      rw [hkind] at hfixed
      cases hfixed
    | plain | file _ | condition _ | arrayLoop _ | mapLoop _ | evaluation _ => rfl
  · unfold Store.routineTextBy
    rw [h.block_eq hid, hbody id hid]

include hrootless

/-- The file is the only block that differs, and no block holds it. -/
theorem Alike.within (depth : Nat) :
    (∀ id ≠ 0, t.blockWithin depth id = s.blockWithin depth id) ∧
      ∀ id ≠ 0, t.bodyWithin depth id = s.bodyWithin depth id := by
  induction depth with
  | zero => exact ⟨fun _ _ => rfl, fun _ _ => rfl⟩
  | succ depth ih =>
    obtain ⟨hblocks, hbodies⟩ := ih
    have hroutines := h.routineTextBy hfile hbodies
    have hbody (id : BlockId) (b : Block) (hb : s.get? id = some b) :
        t.bodyTextBy (t.blockWithin depth) (t.routineTextBy (t.bodyWithin depth)) b =
          s.bodyTextBy (s.blockWithin depth) (s.routineTextBy (s.bodyWithin depth)) b := by
      rw [hroutines]
      exact h.bodyTextBy hblocks (child_ne_zero hrootless hb)
    constructor
    · intro id hid
      rw [blockWithin, blockWithin, h.block_eq hid]
      refine except_bind_congr rfl fun b hb => ?_
      have hget := (block_ok _ _ _).mp hb
      have hcompanion : b.kind.companion ≠ some 0 := fun hzero => hrootless id (by
        rw [childrenOf_of_get? hget]
        exact List.mem_append_left _ (Option.mem_toList.mpr hzero))
      dsimp only
      rw [hbody id b hget, hroutines]
      exact kindText_eq_of_companion hblocks hcompanion _
    · intro id hid
      rw [bodyWithin, bodyWithin, h.block_eq hid]
      exact except_bind_congr rfl fun b hb => hbody id b ((block_ok _ _ _).mp hb)

/-- The programs differ in the lines at the head of the file. -/
theorem Alike.blockText_file :
    s.blockText 0 = (t.blockText 0).map (useText front ++ ·) ∧
      ∀ text, t.blockText 0 = .ok text → ∃ rest, text = useText preamble ++ rest := by
  obtain ⟨b, hb, hfixed⟩ := Option.map_eq_some_iff.mp hfile
  obtain ⟨b', hb', halike⟩ := h.block 0 b hb
  obtain ⟨hfront, rest, hrest⟩ := halike.elements
  obtain ⟨hblocks, hbodies⟩ := h.within hfile hrootless s.size
  have hchildren := child_ne_zero hrootless hb
  have htext := blockText_of_file hb hfixed
  have htext' := blockText_of_file hb' (halike.kind ▸ hfixed)
  rw [h.size, h.routineTextBy hfile hbodies, h.bodyTextBy hblocks fun e he =>
    hchildren e (hfront ▸ List.mem_append_right _ he)] at htext'
  constructor
  · rw [htext, htext', bodyTextBy_useElements hfront]
    rfl
  · intro text hok
    rw [htext', bodyTextBy_useElements hrest.symm, except_map_ok] at hok
    obtain ⟨rest, _, rfl⟩ := hok
    exact ⟨rest, rfl⟩

end Programs

end Store

/-- The imports of a script stand before everything else, the last one first, wherever in the
nesting they are. Apart from that the script compiles to the program of the script that has comments
in their place, which starts with the default dependencies. -/
theorem imports_hoisted {settings : Settings} {script : Script} {program : Program}
    {log : List LogEntry} (h : compile settings script = (.ok program, log)) :
    ∃ imports preamble, script.imports = .ok imports ∧
      settings.defaultDependencies.mapM (fun path => Dependency.make path none) = .ok preamble ∧
      script.Mutes script.muted ∧
      ∀ muted, script.Mutes muted → ∃ program' log',
        compile settings muted = (.ok program', log') ∧
        program.render = program'.render.map (useText imports.reverse ++ ·) ∧
        ∀ text, program'.render = .ok text → ∃ rest, text = useText preamble ++ rest := by
  obtain ⟨opened, preamble, final, hopen, happend, hpreamble, hlines, houter, rfl⟩ :=
    compile_start h
  have hstart := Scopes.start_alike script.stem settings.isModule preamble
  obtain ⟨imports, _, himports, _, _⟩ :=
    Scopes.applyLines_mutes .nil hstart script.mutes_muted.lines hlines
  refine ⟨imports.flatten, preamble, ?_, hpreamble, script.mutes_muted, ?_⟩
  · rw [Script.imports, himports]
    rfl
  intro muted hmuted
  obtain ⟨imports', final', himports', hlines', halike⟩ :=
    Scopes.applyLines_mutes .nil hstart hmuted.lines hlines
  obtain rfl := Except.ok.inj (himports.symm.trans himports')
  obtain ⟨constructs, _, hruns⟩ := Scopes.applyLines_ok hlines
  obtain ⟨hlinked, _⟩ := hruns.linked_named
  obtain ⟨store, log', hstore, rfl⟩ := halike
  have hstem : muted.stem = script.stem := by
    rw [Script.stem, Script.stem, hmuted.path, hmuted.name]
  rw [← hstem] at hopen
  rw [← hmuted.name] at hlines'
  obtain ⟨log'', hcompile⟩ := compile_of_lines hopen happend hlines' houter
  refine ⟨_, log'', hcompile, ?_⟩
  have htexts := hstore.blockText_file (Scopes.file_of_runs hruns) hlinked.zero_notMem_childrenOf
  rw [List.append_nil] at htexts
  rw [Program.render, Program.render, hlinked.file]
  exact htexts

theorem imports_hoisted_between_branches :
    let script := Script.ofSource "a" ("Int a = 1\nimport \x7ba,b\x7d from module.sub\n" ++
      "if a \x7b\nimport * from p.one\n\x7d\nimport * from p.two\nelse \x7b\n\x7d")
    script.muted.content = "Int a = 1\n//\nif a \x7b\n//\n\x7d\n//\nelse \x7b\n\x7d" ∧
      ∃ program program' log log', compile {} script = (.ok program, log) ∧
        compile {} script.muted = (.ok program', log') ∧
        program.render = program'.render.map
          ("use p::two;\nuse p::one;\nuse module::sub qw(a b);\n" ++ ·) := by
  intro script
  refine ⟨by decide +kernel, ?_⟩
  obtain ⟨program, log, h, _⟩ :=
    exists_of_compile_any {} script (fun _ => true) (by decide +kernel)
  obtain ⟨imports, preamble, himports, _, hmuted, hall⟩ := imports_hoisted h
  have hfound : script.imports.toOption =
      some [⟨"module::sub", some ["a", "b"]⟩, ⟨"p::one", none⟩, ⟨"p::two", none⟩] := by
    decide +kernel
  obtain rfl := Except.ok.inj (himports.symm.trans (except_toOption_eq_some hfound))
  obtain ⟨program', log', h', hrender, _⟩ := hall script.muted hmuted
  exact ⟨program, program', log, log', h, h', hrender⟩

end LineScript
