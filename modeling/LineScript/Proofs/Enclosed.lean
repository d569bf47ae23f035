import LineScript.Proofs.Imports
import LineScript.Proofs.Moved

/-!
# Scripts between braces

A script between braces on lines of their own runs as the script alone, one block later and one
scope deeper. Only its imports leave the braces. The program therefore has the lines of the script
alone, and between braces what is not at the head of the file.
-/
namespace LineScript

section Sources

theorem Text.sourceLines_append (front back : String) :
    sourceLines (front ++ "\n" ++ back) = sourceLines front ++ sourceLines back := by
  have hlist : (front ++ "\n" ++ back).toList = front.toList ++ '\n' :: back.toList := by
    simp
  have hsplit := List.splitOnP_append_cons (p := (· == '\n')) front.toList back.toList
    (beq_self_eq_true '\n')
  unfold sourceLines
  rw [hlist, List.splitOn, hsplit, List.map_append]
  rfl

/-- The script between braces on lines of their own. -/
def Script.enclosed (script : Script) : Script :=
  { script with content := "\x7b\n" ++ script.content ++ "\n\x7d" }

/-- The lines of the script between the braces have other numbers only. -/
theorem Script.lines_enclosed (script : Script) :
    ∃ first rows last, script.enclosed.lines = (first, "\x7b") :: (rows ++ [(last, "\x7d")]) ∧
      rows.map Prod.snd = script.lines.map Prod.snd := by
  have hcontent : script.enclosed.content =
      "\x7b" ++ "\n" ++ (script.content ++ "\n" ++ "\x7d") := by
    simp [enclosed, String.append_assoc]
  have htexts : script.enclosed.lines.map Prod.snd =
      "\x7b" :: (script.lines.map Prod.snd ++ ["\x7d"]) := by
    rw [map_snd_lines, map_snd_lines, hcontent, Text.sourceLines_append, Text.sourceLines_append]
    rfl
  obtain ⟨⟨first, _⟩, rest, hlines, rfl, hrest⟩ := List.map_eq_cons_iff.mp htexts
  obtain ⟨rows, ends, rfl, hrows, hends⟩ := List.map_eq_append_iff.mp hrest
  obtain ⟨⟨last, _⟩, rfl, rfl⟩ := List.map_eq_singleton_iff.mp hends
  exact ⟨first, rows, last, hlines, hrows⟩

end Sources

section Enclosure

/-- The file stands in front of the script, and has the dependencies and the blank line that start
the script alone. -/
def Detached (deps : List Dependency) (id : BlockId) (es es' : List Element) : Prop :=
  if id = 0 then es = useElements deps ++ .text "\n" :: es' else es' = es

theorem lastBlock?_text_cons (content : String) (es : List Element) :
    lastBlock? (.text content :: es) = lastBlock? es := by
  simp [lastBlock?, Element.isSolid]

theorem BlockKind.shift_of_file {kind : BlockKind} {info : FileInfo} (h : kind.fixed = .file info)
    {k : Nat} (hk : k ≠ 0) : kind.shift k = .plain := by
  cases kind with
  | file _ => exact if_neg hk
  | plain | routine _ | condition _ | arrayLoop _ | mapLoop _ | evaluation _ => cases h

/-- Where a script between braces stands: inside the file and its scope. -/
def enclosure (name : String) (isModule : Bool) (deps : List Dependency) : Echo where
  under := [Scopes.fileBlock name isModule deps]
  around := [⟨[0], 0, [], [], 1, .block⟩]
  base := [0]
  bound := 1
  Rel := Detached deps
  bare := by simp
  made id es hid := by rw [Detached, if_neg (Nat.ne_of_gt hid)]
  snoc id es es' e h := by
    unfold Detached at h ⊢
    split_ifs at h ⊢
    · rw [h, List.append_assoc, List.cons_append]
    · rw [h]
  last id es es' h := by
    unfold Detached at h
    split_ifs at h
    · rw [h, lastBlock?_useElements_append, lastBlock?_text_cons]
    · rw [h]

variable {name : String} {isModule : Bool} {preamble deps : List Dependency} {file : String}

/-- A dependency in front of the script alone, and in front of the file around the braces. -/
theorem Store.Echoes.hoist {s t : Store} (h : s.Echoes (enclosure name isModule deps) t)
    {block : Block} (hblock : s.get? 0 = some block) (d : Dependency) :
    (s.replace 0 { block with elements := .statement (.dependency d) :: block.elements }).Echoes
      (enclosure name isModule (d :: deps))
      (t.replace 0 (Scopes.fileBlock name isModule (d :: deps))) := by
  have hkept : t.get? 0 = some (Scopes.fileBlock name isModule deps) := h.kept 0 Nat.zero_lt_one
  refine ⟨h.fresh, ?_, ?_, ?_, ?_⟩
  · rw [size_replace, size_replace]
    exact h.size
  · rw [size_replace]
    exact h.bounded
  · intro id hid
    obtain rfl : id = 0 := Nat.lt_one_iff.mp hid
    exact get?_replace_self (lt_size_of_get? hkept) _
  intro id b hb
  have hshift : id + 1 ≠ 0 := Nat.succ_ne_zero id
  change ∃ b', (t.replace 0 _).get? (id + 1) = some b' ∧ b.Echoes 1 (Detached (d :: deps) id) b'
  rw [get?_replace_of_ne _ hshift]
  by_cases hid : id = 0
  · subst hid
    rw [get?_replace_self (lt_size_of_get? hblock), Option.some.injEq] at hb
    obtain ⟨b', hb', hechoes⟩ := h.block 0 block hblock
    subst hb
    refine ⟨b', hb', hechoes.kind, hechoes.closed, hechoes.root, ?_⟩
    exact congrArg (List.cons _) hechoes.elements
  · rw [get?_replace_of_ne _ hid] at hb
    obtain ⟨b', hb', hechoes⟩ := h.block id b hb
    have helements : Detached deps id _ _ := hechoes.elements
    rw [Detached, if_neg hid] at helements
    refine ⟨b', hb', hechoes.kind, hechoes.closed, hechoes.root, ?_⟩
    rw [Detached, if_neg hid, helements]
    rfl

/-- A scope is closed if its block can be made part of the block around it. -/
theorem Session.pop_of_append {t : Scopes} {parent : Scope} {outer : List Scope} {store : Store}
    (houter : t.outer = parent :: outer)
    (happend : Succeeds (Edit.append parent.block (mergedElement t.current)) t.store () store) :
    ∃ log, Succeeds pop t parent.path
      { t with store := store, current := parent, outer := outer, log := log } := by
  refine ⟨t.log ++ [⟨.debug,
    s!"close scope {ScopePath.text t.current.path} (#{t.current.block})"⟩], ?_⟩
  unfold pop debug note
  rw [succeeds_get_bind]
  simp only [houter]
  rw [succeeds_edit_bind]
  refine ⟨(), store, happend, ?_⟩
  rw [succeeds_modify_bind, succeeds_modify_bind, succeeds_pure]
  exact ⟨rfl, rfl⟩

namespace Scopes

variable {s t s' : Scopes}

/-- An import reaches the file from inside the braces. -/
theorem Echoes.hoist {info : FileInfo} (h : s.Echoes (enclosure name isModule deps) t)
    (hzero : s.file = 0) (hfile : s.store.kindOf 0 = some (.file info))
    (hdone : info.headerDone = true) {path : String} {symbols : Option (List String)}
    (hline : Succeeds (Session.applyImport path symbols) s () s') :
    ∃ d t', Dependency.make path symbols = .ok d ∧
      Succeeds (Session.applyImport path symbols) t () t' ∧
      s'.Echoes (enclosure name isModule (d :: deps)) t' := by
  obtain ⟨d, store, log, hd, happend, rfl⟩ := Session.applyImport_edits hline
  rw [hzero] at happend
  obtain ⟨block, found, hblock, _, hkind, rfl⟩ := Edit.append_dependency_ok happend
  rw [Store.kindOf_of_get? hblock, hkind] at hfile
  have hheader : found.headerDone = true := by
    rw [← hdone, ← BlockKind.file.inj (Option.some.inj hfile)]
  rw [if_pos hheader]
  have hzero' : t.file = 0 := h.file.trans hzero
  have hkept : t.store.get? t.file = some (fileBlock name isModule deps) := by
    rw [hzero']
    exact h.store.kept 0 Nat.zero_lt_one
  obtain ⟨log', hline'⟩ := Session.applyImport_of_file hd hkept rfl rfl rfl
  refine ⟨d, _, hd, hline', ?_, h.file, h.current, h.outer⟩
  rw [hzero']
  exact h.store.hoist hblock d

/-- A line leads from the scopes of the script alone and those between the braces to such scopes
again, with the import at the head of the file if the line is one. -/
theorem applyLine_enclosed {lines : List Construct} {text : String} {number row : Nat}
    (hruns : (start name isModule preamble).Runs lines s)
    (h : s.Echoes (enclosure name isModule deps) t)
    (hpackage : ∀ path, Line.classify text ≠ .ok (.package path))
    (hline : Succeeds (Session.applyLine file number text) s () s') :
    ∃ c new t', (start name isModule preamble).Runs (lines ++ [c]) s' ∧
      Line.imports text = .ok new ∧ Succeeds (Session.applyLine file row text) t () t' ∧
      s'.Echoes (enclosure name isModule (new.reverse ++ deps)) t' := by
  obtain ⟨c, hc, happly⟩ := Session.applyLine_ok_iff.mp hline
  have hnext : (start name isModule preamble).Runs (lines ++ [c]) s' :=
    .snoc _ hruns (Session.apply_ok happly)
  obtain ⟨hlinked, hnamed⟩ := hruns.linked_named
  cases himport : c.isImport with
  | false =>
    have hnot : c.isPackage = false := by
      cases c with
      | package path => exact absurd hc (hpackage path)
      | blank | comment | openScope | closeScope | importModule _ _ | declare _ _ _ | assign _ _
      | methodChain _ _ | routine _ _ _ | giveBack _ | condition _ _ | loop _ _ | attempt
      | signal _ _ | print _ | exit _ => rfl
    obtain ⟨_, t', hline', _, h'⟩ := Session.applyLine_simulates hlinked hnamed h hc himport
      (fun hpackage => absurd hpackage (hnot ▸ Bool.false_ne_true)) file number row _ s' hline
    exact ⟨c, [], t', hnext, Line.imports_of_not_isImport hc himport, hline', h'⟩
  | true =>
    have hnoted (log log' : List LogEntry) : Echoes (enclosure name isModule deps)
        { s with log := log } { t with log := log' } := ⟨h.store, h.file, h.current, h.outer⟩
    have hechoes := hnoted (s.log ++ [⟨.debug, s!"{file}:{number} {c.label}"⟩])
      (t.log ++ [⟨.debug, s!"{file}:{row} {c.label}"⟩])
    have hfile := file_of_runs hruns
    obtain ⟨path, symbols, rfl⟩ := Construct.exists_of_isImport himport
    obtain ⟨d, t', hd, happly', h'⟩ := hechoes.hoist hlinked.file hfile rfl happly
    refine ⟨_, [d], t', hnext, ?_, Session.applyLine_ok_iff.mpr ⟨_, hc, happly'⟩, h'⟩
    simp only [Line.imports, hc, hd, bind, Except.bind, pure, Except.pure]

theorem applyLines_enclosed {constructs : List Construct} {lines rows : List (Nat × String)}
    (hruns : (start name isModule preamble).Runs constructs s)
    (h : s.Echoes (enclosure name isModule deps) t)
    (hrows : rows.map Prod.snd = lines.map Prod.snd)
    (hpackage : ∀ line ∈ lines, ∀ path, Line.classify line.2 ≠ .ok (.package path))
    (hlines : applyLines file lines s = (.ok (), s')) :
    ∃ imports t', lines.mapM (fun line => Line.imports line.2) = .ok imports ∧
      applyLines file rows t = (.ok (), t') ∧
      s'.Echoes (enclosure name isModule (imports.flatten.reverse ++ deps)) t' := by
  induction lines generalizing s t deps constructs rows with
  | nil =>
    obtain rfl := List.map_eq_nil_iff.mp hrows
    obtain rfl := congrArg Prod.snd hlines
    exact ⟨[], t, rfl, rfl, h⟩
  | cons line lines ih =>
    obtain ⟨⟨row, _⟩, rows, rfl, rfl, hrest'⟩ := List.map_eq_cons_iff.mp hrows
    obtain ⟨number, text⟩ := line
    rw [List.forall_mem_cons] at hpackage
    obtain ⟨u, hline, hrest⟩ := applyLines_cons_iff.mp hlines
    obtain ⟨c, new, u', hnext, hnew, hline', h'⟩ :=
      applyLine_enclosed hruns h hpackage.1 hline
    obtain ⟨imports, t', himports, hlines', h''⟩ := ih hnext h' hrest' hpackage.2 hrest
    refine ⟨new :: imports, t', ?_, applyLines_cons_iff.mpr ⟨u', hline', hlines'⟩, ?_⟩
    · rw [List.mapM_cons, hnew, himports]
      rfl
    · rw [List.flatten_cons, List.reverse_append, List.append_assoc]
      exact h''

theorem start_enclosed (name : String) (isModule : Bool) (deps : List Dependency) (file : String)
    (number : Nat) :
    ∃ t, Succeeds (Session.applyLine file number "\x7b") (start name isModule deps) () t ∧
      (start name isModule deps).Echoes (enclosure name isModule deps) t := by
  refine ⟨⟨Store.empty.extend [fileBlock name isModule deps, Block.ofKind .plain] 0, 0,
    ⟨[0, 0], 1, [], [], 0, .block⟩, [⟨[0], 0, [], [], 1, .block⟩], _⟩,
    Session.applyLine_ok_iff.mpr ⟨.openScope, rfl, rfl⟩, ⟨rfl, rfl, Nat.le_refl 1, ?_, ?_⟩,
    rfl, rfl, rfl⟩
  · intro id hid
    obtain rfl : id = 0 := Nat.lt_one_iff.mp hid
    rfl
  · intro id b hb
    obtain ⟨rfl, rfl⟩ := get?_start hb
    refine ⟨Block.ofKind .plain, rfl, rfl, rfl, rfl, ?_⟩
    simp [enclosure, Detached, fileBlock, useElements, Element.shift, Statement.shift,
      Block.ofKind]

/-- The scope of a file handles no signal. -/
theorem merge_of_runs {lines : List Construct} (hruns : (start name isModule preamble).Runs lines s)
    (houter : s.outer = []) : s.current.block = 0 ∧ s.current.merge = .block := by
  obtain ⟨hlinked, hnamed⟩ := hruns.linked_named
  have hcurrent : s.current.block = 0 := by
    have hopen := hlinked.openBlocks_eq houter
    simpa [openBlocks, all, houter] using hopen
  refine ⟨hcurrent, ?_⟩
  cases hcase : s.current.merge with
  | block => rfl
  | handler signal =>
    obtain ⟨info, hinfo, _⟩ := (hnamed s.current List.mem_cons_self).handler signal hcase
    rw [hcurrent, file_of_runs hruns] at hinfo
    cases hinfo

/-- The brace at the end makes the block between the braces part of the file. -/
theorem close_enclosed {lines : List Construct}
    (hruns : (start name isModule preamble).Runs lines s) (houter : s.outer = [])
    (h : s.Echoes (enclosure name isModule deps) t) (number : Nat) :
    ∃ t', Succeeds (Session.applyLine file number "\x7d") t () t' ∧ t'.outer = [] ∧
      t'.file = t.file ∧ t'.store = (t.store.setRoot 1 0).push 0 (.block 1) := by
  obtain ⟨hlinked, hnamed⟩ := hruns.linked_named
  obtain ⟨hcurrent, hmerge⟩ := merge_of_runs hruns houter
  obtain ⟨block, hblock, hfixed⟩ := Option.map_eq_some_iff.mp (file_of_runs hruns)
  obtain ⟨inner, hinner, hechoes⟩ := h.store.block 0 block hblock
  have hkind : inner.kind.isFile = false := by
    have hplain : inner.kind = .plain :=
      hechoes.kind.trans (BlockKind.shift_of_file hfixed Nat.one_ne_zero)
    rw [hplain]
    rfl
  have hroot : inner.root = none := by
    have hzero : s.store.rootOf 0 = none :=
      (hlinked.rootless 0 hlinked.zero_lt_size).mpr (List.mem_of_getLast? hlinked.outermost)
    rw [Store.rootOf_of_get? hblock] at hzero
    rw [hechoes.root, hzero]
    rfl
  have hkept : t.store.get? 0 = some (fileBlock name isModule deps) :=
    h.store.kept 0 Nat.zero_lt_one
  have hmerged : Session.mergedElement t.current = .block 1 := by
    rw [h.current, Session.mergedElement, Scope.shift, hmerge, hcurrent]
    rfl
  have happend : Succeeds (Edit.append 0 (Session.mergedElement t.current)) t.store ()
      ((t.store.setRoot 1 0).push 0 (.block 1)) := by
    rw [hmerged]
    refine (Edit.append_ok_iff _).mpr ⟨_, hkept, rfl, ?_⟩
    change Succeeds (Edit.appendBlock 0 1) t.store () _
    unfold Edit.appendBlock
    rw [if_neg Nat.one_ne_zero]
    refine (Edit.succeeds_requireBlock_bind _ _ _ _ _).mpr ⟨inner, hinner, ?_⟩
    simp only [hkind, hroot, Bool.false_eq_true, if_false]
    rw [succeeds_get_bind, Store.isAncestor_of_rootless (Store.rootOf_of_get? hkept)]
    exact (succeeds_modify _ _ _ _).mpr rfl
  have houter' : t.outer = [⟨[0], 0, [], [], 1, .block⟩] := by
    rw [h.outer, houter]
    rfl
  obtain ⟨log, hpop⟩ := Session.pop_of_append
    (t := { t with log := t.log ++ [⟨.debug, s!"{file}:{number} {Construct.closeScope.label}"⟩] })
    houter' happend
  have hclose := (succeeds_bind _ (fun _ => pure ()) _ _ _).mpr
    ⟨_, _, hpop, (succeeds_pure () _ _ _).mpr ⟨rfl, rfl⟩⟩
  exact ⟨_, Session.applyLine_ok_iff.mpr ⟨.closeScope, rfl, hclose⟩, rfl, rfl, rfl⟩

end Scopes

end Enclosure

namespace Store

variable {s t : Store} {blockText routineText : BlockId → Except Fault String} {block : Block}

theorem bodyTextBy_cons {e : Element} {es : List Element} {text : String}
    (h : block.elements = e :: es) (htext : s.elementTextBy blockText routineText e = .ok text) :
    s.bodyTextBy blockText routineText block =
      (s.bodyTextBy blockText routineText { block with elements := es }).map (text ++ ·) := by
  rw [bodyTextBy, bodyTextBy, h, List.mapM_cons, htext]
  cases es.mapM (s.elementTextBy blockText routineText) with
  | error fault => rfl
  | ok texts => exact congrArg Except.ok String.join_cons

theorem bodyTextBy_block {id : BlockId} (h : block.elements = [.block id]) :
    s.bodyTextBy blockText routineText block = blockText id := by
  rw [bodyTextBy, h, List.mapM_cons, List.mapM_nil, elementTextBy]
  cases blockText id with
  | error fault => rfl
  | ok text => exact congrArg Except.ok (by simp)

/-- The elements behind the head of a file, found back from the shifted ones. -/
theorem exists_of_map_shift {k : Nat} {deps : List Dependency} {content : String}
    {es inner : List Element}
    (h : es.map (Element.shift k) = useElements deps ++ .text content :: inner) :
    ∃ body, es = useElements deps ++ .text content :: body ∧
      body.map (Element.shift k) = inner := by
  induction deps generalizing es with
  | nil =>
    obtain ⟨e, body, rfl, he, hbody⟩ := List.map_eq_cons_iff.mp h
    refine ⟨body, ?_, hbody⟩
    cases e with
    | text _ => exact congrArg (· :: body) he
    | block _ | value _ | method _ | statement _ => cases he
  | cons d deps ih =>
    obtain ⟨e, rest, rfl, he, hrest⟩ := List.map_eq_cons_iff.mp h
    obtain ⟨body, rfl, hbody⟩ := ih hrest
    refine ⟨body, ?_, hbody⟩
    have hsame : e = .statement (.dependency d) := by
      cases e with
      | text _ | block _ | value _ | method _ => cases he
      | statement content =>
        cases content with
        | dependency _ => exact he
        | binding _ | giveBack _ | print _ | assign _ | signal _ _ | exit _ | package _ => cases he
    rw [hsame]
    rfl

variable {name : String} {isModule : Bool} {preamble deps : List Dependency}

/-- The blocks inside the braces are those of the script alone. -/
theorem Echoes.moved (h : s.Echoes (enclosure name isModule deps) t)
    (hfiles : ∀ id kind, s.kindOf id = some kind → (kind.isFile = true ↔ id = 0))
    (hrootless : ∀ id, 0 ∉ s.childrenOf id) :
    s.Moved 1 (· ≠ 0) ((t.setRoot 1 0).push 0 (.block 1)) := by
  constructor
  · intro id b hid hb
    obtain ⟨b', hb', hechoes⟩ := h.block id b hb
    have helements : Detached deps id _ _ := hechoes.elements
    rw [Detached, if_neg hid] at helements
    refine ⟨b', ?_, hechoes.kind, helements⟩
    have hone : ¬ 1 = id + 1 := fun hone => hid (Nat.succ.inj hone).symm
    rw [Store.push, get?_update, if_neg (Nat.succ_ne_zero id).symm, Store.setRoot, get?_update,
      if_neg hone]
    exact hb'
  · intro id c _ hc hzero
    exact hrootless id (hzero ▸ hc)
  · intro id b hid hb hfile
    have hzero := (hfiles id _ (kindOf_of_get? hb)).mp (by rw [BlockKind.isFile_fixed, hfile])
    exact absurd hzero hid

/-- The texts of the script alone and of the script between braces. -/
theorem Echoes.render_enclosed (h : s.Echoes (enclosure name isModule deps) t) (hs : s.Settled)
    (hmoved : s.Moved 1 (· ≠ 0) ((t.setRoot 1 0).push 0 (.block 1)))
    (hnests : s.NestsWithin (s.size + 1) 0) (hrootless : ∀ id, 0 ∉ s.childrenOf id)
    {info : FileInfo} (hfile : s.kindOf 0 = some (.file info)) :
    ∃ (file : Block) (body : List Element) (rest : Except Fault String), s.get? 0 = some file ∧
      file.elements = useElements deps ++ .text "\n" :: body ∧
      s.blockText 0 = rest.map (fun rest => useText deps ++ "\n" ++ rest) ∧
      ((t.setRoot 1 0).push 0 (.block 1)).blockText 0 = rest.map fun rest =>
        useText deps ++ "\n" ++ if body.isEmpty then "" else inBraces rest ++ ";\n" := by
  obtain ⟨file, hget, hfixed⟩ := Option.map_eq_some_iff.mp hfile
  obtain ⟨inner, hinner, hechoes⟩ := h.block 0 file hget
  have helements : file.elements.map (Element.shift 1) =
      useElements deps ++ .text "\n" :: inner.elements := hechoes.elements
  obtain ⟨body, hbody, hshifted⟩ := exists_of_map_shift helements
  have hempty : inner.elements.isEmpty = body.isEmpty := by rw [← hshifted, List.isEmpty_map]
  have hkept : t.get? 0 = some (Scopes.fileBlock name isModule deps) := h.kept 0 Nat.zero_lt_one
  have hfirst : ((t.setRoot 1 0).push 0 (.block 1)).get? 0 = some
      { Scopes.fileBlock name isModule deps with
        elements := (Scopes.fileBlock name isModule deps).elements ++ [.block 1] } := by
    rw [Store.push, get?_update, if_pos rfl, Store.setRoot, get?_update, if_neg Nat.one_ne_zero,
      hkept, Option.map_some]
  have hsecond : ((t.setRoot 1 0).push 0 (.block 1)).get? 1 =
      some { inner with root := some 0 } := by
    rw [Store.push, get?_update, if_neg Nat.zero_ne_one, Store.setRoot, get?_update, if_pos rfl]
    exact congrArg (Option.map _) hinner
  have hsize : ((t.setRoot 1 0).push 0 (.block 1)).size = s.size + 1 := by
    rw [Store.push, size_update, Store.setRoot, size_update]
    exact h.size
  generalize (t.setRoot 1 0).push 0 (.block 1) = u at hmoved hfirst hsecond hsize ⊢
  have hfileText : u.bodyTextBy (u.blockWithin s.size) (u.routineTextBy (u.bodyWithin s.size))
        { file with elements := file.elements.map (Element.shift 1) } =
      s.bodyTextBy (s.blockWithin s.size) (s.routineTextBy (s.bodyWithin s.size)) file := by
    refine hmoved.bodyTextBy (fun e he => hs.element e ⟨0, file, hget, he⟩) rfl fun c hc => ?_
    have hne : c ≠ 0 := fun hzero => hrootless 0 (childrenOf_of_get? hget ▸ hzero ▸ hc)
    cases hnests with
    | intro hblock hnested =>
      obtain rfl := Option.some.inj (hget.symm.trans hblock)
      exact ⟨hne, hmoved.within hs (hnested c hc) hne⟩
  refine ⟨file, body,
    u.bodyTextBy (u.blockWithin s.size) (u.routineTextBy (u.bodyWithin s.size)) inner, hget, hbody,
    ?_, ?_⟩
  · rw [blockText_of_file hget hfixed, ← hfileText, bodyTextBy_useElements helements,
      bodyTextBy_cons rfl rfl]
    change ((u.bodyTextBy _ _ inner).map _).map _ = _
    cases u.bodyTextBy (u.blockWithin s.size) (u.routineTextBy (u.bodyWithin s.size)) inner with
    | error fault => rfl
    | ok text => exact congrArg Except.ok String.append_assoc.symm
  · have hplain : inner.kind = .plain :=
      hechoes.kind.trans (BlockKind.shift_of_file hfixed Nat.one_ne_zero)
    have hhead : (Scopes.fileBlock name isModule deps).elements ++ [.block 1] =
        useElements deps ++ [.text "\n", .block 1] := by
      simp [Scopes.fileBlock, useElements]
    have hinnerText : u.blockWithin (s.size + 1) 1 =
        if body.isEmpty then .ok "" else
          (u.bodyTextBy (u.blockWithin s.size) (u.routineTextBy (u.bodyWithin s.size)) inner).map
            fun rest => inBraces rest ++ ";\n" := by
      rw [blockWithin, (block_ok _ _ _).mpr hsecond, ← hempty]
      change kindText _ _ _ _ = _
      simp only [kindText, hplain]
      rfl
    rw [blockText_of_file hfirst rfl, hsize, bodyTextBy_useElements hhead, bodyTextBy_cons rfl rfl,
      bodyTextBy_block rfl, hinnerText]
    cases hcase : body.isEmpty with
    | true =>
      have hnone : inner.elements = [] := List.isEmpty_iff.mp (hempty.trans hcase)
      have hnothing : u.bodyTextBy (u.blockWithin s.size) (u.routineTextBy (u.bodyWithin s.size))
          inner = .ok "" := by
        rw [bodyTextBy, hnone]
        rfl
      rw [hnothing]
      exact congrArg Except.ok String.append_assoc.symm
    | false =>
      cases u.bodyTextBy (u.blockWithin s.size) (u.routineTextBy (u.bodyWithin s.size)) inner with
      | error fault => rfl
      | ok text => exact congrArg Except.ok String.append_assoc.symm

end Store

/-- A script without package lines compiles between braces as well. Its imports and the default
dependencies stand at the head of both programs, followed by a blank line. The rest of its program
comes to stand between braces, unless the script puts nothing there; where it cannot be written out,
neither can the script between braces. -/
theorem enclosed_renders_in_braces {settings : Settings} {script : Script} {program : Program}
    {log : List LogEntry} (h : compile settings script = (.ok program, log))
    (hpackage : ∀ line ∈ script.lines, ∀ path, Line.classify line.2 ≠ .ok (.package path)) :
    ∃ imports preamble program' log' file body, ∃ rest : Except Fault String,
      compile settings script.enclosed = (.ok program', log') ∧
      script.imports = .ok imports ∧
      settings.defaultDependencies.mapM (fun path => Dependency.make path none) = .ok preamble ∧
      program.store.get? program.root = some file ∧
      file.elements = useElements (imports.reverse ++ preamble) ++ .text "\n" :: body ∧
      program.render =
        rest.map (fun rest => useText (imports.reverse ++ preamble) ++ "\n" ++ rest) ∧
      program'.render = rest.map fun rest => useText (imports.reverse ++ preamble) ++ "\n" ++
        if body.isEmpty then "" else "\x7b\n" ++ rest ++ "\x7d;\n" := by
  obtain ⟨opened, preamble, final, hopen, happend, hpreamble, hlines, houter, rfl⟩ :=
    compile_start h
  obtain ⟨constructs, _, hruns⟩ := Scopes.applyLines_ok hlines
  obtain ⟨hlinked, hsettled⟩ := Scopes.settled_of_runs hruns
  obtain ⟨first, rows, last, henclosed, hrows⟩ := script.lines_enclosed
  obtain ⟨opened', hline, hstart⟩ :=
    Scopes.start_enclosed script.stem settings.isModule preamble script.name first
  obtain ⟨imports, inside, himports, hinside, hechoes⟩ :=
    Scopes.applyLines_enclosed .nil hstart hrows hpackage hlines
  obtain ⟨final', hclose, houter', hfile', hstore⟩ :=
    Scopes.close_enclosed hruns houter hechoes last
  have hlines' : Scopes.applyLines script.name script.enclosed.lines
      (Scopes.start script.stem settings.isModule preamble) = (.ok (), final') := by
    rw [henclosed]
    refine Scopes.applyLines_cons_iff.mpr ⟨opened', hline, ?_⟩
    refine (Scopes.applyLines_append _ _ _ _ _).mpr ⟨inside, hinside, ?_⟩
    exact Scopes.applyLines_cons_iff.mpr ⟨final', hclose, rfl⟩
  obtain ⟨log', hcompile⟩ : ∃ log', compile settings script.enclosed =
      (.ok ⟨script.stem, final'.store, final'.file, settings.tabSize⟩, log') :=
    compile_of_lines hopen happend hlines' houter'
  have hzero := hlinked.zero_notMem_childrenOf
  obtain ⟨file, body, rest, hget, hbody, hrender, hrender'⟩ :=
    hechoes.store.render_enclosed hsettled (hechoes.store.moved hlinked.files hzero)
      (hlinked.nestsWithin 0 hlinked.zero_lt_size) hzero (Scopes.file_of_runs hruns)
  refine ⟨imports.flatten, preamble, _, log', file, body, rest, hcompile, ?_, hpreamble, ?_, hbody,
    ?_, ?_⟩
  · rw [Script.imports, himports]
    rfl
  · rw [hlinked.file]
    exact hget
  · rw [Program.render, hlinked.file]
    exact hrender
  · have hbraces (rest : String) : inBraces rest ++ ";\n" = "\x7b\n" ++ rest ++ "\x7d;\n" := by
      rw [inBraces, String.append_assoc]
      rfl
    rw [Program.render, hfile', hechoes.file, hlinked.file, hstore]
    simpa only [hbraces] using hrender'

theorem enclosed_renders_in_braces_return :
    let script := Script.ofSource "a" "Int x = 1\nif x \x7b\nimport * from a.b\n\x7d\nreturn x"
    ∃ program program' log log' rest,
      compile { defaultDependencies := ["strict"] } script = (.ok program, log) ∧
      compile { defaultDependencies := ["strict"] } script.enclosed = (.ok program', log') ∧
      program.render = .ok ("use a::b;\nuse strict;\n" ++ "\n" ++ rest) ∧
      program'.render =
        .ok ("use a::b;\nuse strict;\n" ++ "\n" ++ ("\x7b\n" ++ rest ++ "\x7d;\n")) := by
  intro script
  obtain ⟨program, log, h, hcheck⟩ :=
    exists_of_compile_any { defaultDependencies := ["strict"] } script
      (fun program => program.render.isOk &&
        (program.store.get? program.root).any fun file => 3 < file.elements.length)
      (by decide +kernel)
  have hpackages : script.lines.all (fun line =>
      !(Line.classify line.2).toOption.any Construct.isPackage) = true := by decide +kernel
  have hpackage (line : Nat × String) (hline : line ∈ script.lines) (path : String) :
      Line.classify line.2 ≠ .ok (.package path) := by
    intro hclassify
    have hnot := List.all_eq_true.mp hpackages line hline
    rw [hclassify] at hnot
    cases hnot
  obtain ⟨imports, preamble, program', log', file, body, rest, h', himports, hpreamble, hfile,
    hbody, hrender, hrender'⟩ := enclosed_renders_in_braces h hpackage
  have hfound : script.imports.toOption = some [⟨"a::b", none⟩] := by decide +kernel
  obtain rfl := Except.ok.inj (himports.symm.trans (except_toOption_eq_some hfound))
  have hdefault : (["strict"].mapM fun path => Dependency.make path none).toOption =
      some [⟨"strict", none⟩] := by decide +kernel
  obtain rfl := Except.ok.inj (hpreamble.symm.trans (except_toOption_eq_some hdefault))
  rw [Bool.and_eq_true, hfile] at hcheck
  have hlong : 3 < file.elements.length := of_decide_eq_true hcheck.2
  have hsome : body.isEmpty = false := by
    cases body with
    | nil =>
      rw [hbody] at hlong
      exact absurd hlong (by decide)
    | cons _ _ => rfl
  cases rest with
  | error fault =>
    rw [hrender] at hcheck
    cases hcheck.1
  | ok rest =>
    rw [hsome] at hrender'
    exact ⟨program, program', log, log', rest, h, h', hrender, hrender'⟩

end LineScript
