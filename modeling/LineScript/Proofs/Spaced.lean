import LineScript.Proofs.Imports
import Mathlib.Data.List.TakeWhile

/-!
# Blocks with a blank line more

A blank line adds a text to the innermost block. From then on the lines of a script do the same with
it and without it: no check looks at the texts of a block.
-/
namespace LineScript

section InPlace

variable {E : Echo} {s t s' : Scopes}

/-- An import is put in front of the file in both stores. -/
theorem Session.applyImport_simulates (h : s.Echoes E t) (hshift : E.shift = 0)
    (hcons : ∀ es es' e, E.Rel 0 es es' → E.Rel 0 (e :: es) (e :: es')) (hzero : s.file = 0)
    {info : FileInfo} (hfile : s.store.kindOf 0 = some (.file info))
    (hdone : info.headerDone = true) (path : String) (symbols : Option (List String)) :
    Simulates (Scopes.Echoes E) Eq (applyImport path symbols) (applyImport path symbols) s t := by
  intro _ s' hline
  obtain ⟨d, store, log, hd, happend, rfl⟩ := applyImport_edits hline
  rw [hzero] at happend
  obtain ⟨block, found, hblock, hopen, hkind, rfl⟩ := Edit.append_dependency_ok happend
  rw [Store.kindOf_of_get? hblock, hkind] at hfile
  have hheader : found.headerDone = true := by
    rw [← hdone, ← BlockKind.file.inj (Option.some.inj hfile)]
  obtain ⟨block', hblock', hechoes⟩ := h.store.block 0 block hblock
  have hfile' : t.file = 0 + E.shift := by rw [h.file, hzero, hshift]
  have hkind' : block'.kind = .file found := by
    rw [hechoes.kind, hshift, BlockKind.shift_zero, hkind]
  rw [← hfile'] at hblock'
  obtain ⟨log', hline'⟩ :=
    applyImport_of_file hd hblock' (hechoes.closed.trans hopen) hkind' hheader
  refine ⟨_, _, hline', rfl, ?_, h.file, h.current, h.outer⟩
  have hchange (b b' : Block) (hb : b.Echoes E.shift (E.Rel 0) b') :
      Block.Echoes E.shift (E.Rel 0)
        { b with elements := .statement (.dependency d) :: b.elements }
        { b' with elements := .statement (.dependency d) :: b'.elements } :=
    ⟨hb.kind, hb.closed, hb.root, hcons _ _ _ hb.elements⟩
  have hupdate := h.store.update hchange
  rw [← hfile', Store.update_eq_replace hblock, Store.update_eq_replace hblock'] at hupdate
  rw [if_pos hheader]
  exact hupdate

variable {name : String} {isModule : Bool} {deps : List Dependency} {file : String}

/-- A line leads from scopes of which one echoes the other in place to such scopes again. -/
theorem Scopes.applyLine_inPlace {constructs : List Construct}
    (hruns : (Scopes.start name isModule deps).Runs constructs s) (h : s.Echoes E t)
    (hshift : E.shift = 0) (hcons : ∀ es es' e, E.Rel 0 es es' → E.Rel 0 (e :: es) (e :: es'))
    (text : String) (number row : Nat) :
    Simulates (Scopes.Echoes E) Eq (Session.applyLine file number text)
      (Session.applyLine file row text) s t := by
  intro _ s' hline
  obtain ⟨c, hc, happly⟩ := Session.applyLine_ok_iff.mp hline
  obtain ⟨hlinked, hnamed⟩ := hruns.linked_named
  cases himport : c.isImport with
  | false =>
    exact Session.applyLine_simulates hlinked hnamed h hc himport (fun _ => hshift) file number row
      _ s' hline
  | true =>
    have hnoted (log log' : List LogEntry) :
        Scopes.Echoes E { s with log := log } { t with log := log' } :=
      ⟨h.store, h.file, h.current, h.outer⟩
    have hechoes := hnoted (s.log ++ [⟨.debug, s!"{file}:{number} {c.label}"⟩])
      (t.log ++ [⟨.debug, s!"{file}:{row} {c.label}"⟩])
    have hfile := Scopes.file_of_runs hruns
    obtain ⟨path, symbols, rfl⟩ := Construct.exists_of_isImport himport
    obtain ⟨_, t', happly', _, h'⟩ := Session.applyImport_simulates hechoes hshift hcons
      hlinked.file hfile rfl path symbols _ s' happly
    exact ⟨_, t', Session.applyLine_ok_iff.mpr ⟨_, hc, happly'⟩, rfl, h'⟩

theorem Scopes.applyLines_inPlace {constructs : List Construct} {lines rows : List (Nat × String)}
    (hruns : (Scopes.start name isModule deps).Runs constructs s) (h : s.Echoes E t)
    (hshift : E.shift = 0) (hcons : ∀ es es' e, E.Rel 0 es es' → E.Rel 0 (e :: es) (e :: es'))
    (hrows : rows.map Prod.snd = lines.map Prod.snd)
    (hlines : Scopes.applyLines file lines s = (.ok (), s')) :
    ∃ t', Scopes.applyLines file rows t = (.ok (), t') ∧ s'.Echoes E t' := by
  induction lines generalizing s t constructs rows with
  | nil =>
    obtain rfl := List.map_eq_nil_iff.mp hrows
    obtain rfl := congrArg Prod.snd hlines
    exact ⟨t, rfl, h⟩
  | cons line lines ih =>
    obtain ⟨⟨row, _⟩, rows, rfl, rfl, hrest'⟩ := List.map_eq_cons_iff.mp hrows
    obtain ⟨number, text⟩ := line
    obtain ⟨u, hline, hrest⟩ := applyLines_cons_iff.mp hlines
    obtain ⟨_, u', hline', _, h'⟩ :=
      applyLine_inPlace hruns h hshift hcons text number row _ u hline
    obtain ⟨c, _, happly⟩ := Session.applyLine_ok_iff.mp hline
    have hnext := Scopes.Runs.snoc _ hruns (Session.apply_ok happly)
    obtain ⟨t', hlines', h''⟩ := ih hnext h' hrest' hrest
    exact ⟨t', applyLines_cons_iff.mpr ⟨u', hline', hlines'⟩, h''⟩

end InPlace

section Spaced

/-- The block has a blank line more; other blocks are the same. -/
def Spaced (p id : BlockId) (es es' : List Element) : Prop :=
  if id = p then ∃ front back, es = front ++ back ∧ es' = front ++ .text "\n" :: back else es' = es

variable {p id : BlockId} {es es' : List Element}

theorem Spaced.snoc (h : Spaced p id es es') (e : Element) :
    Spaced p id (es ++ [e]) (es' ++ [e]) := by
  unfold Spaced at h ⊢
  split_ifs at h ⊢
  · obtain ⟨front, back, rfl, rfl⟩ := h
    exact ⟨front, back ++ [e], by simp, by simp⟩
  · rw [h]

theorem Spaced.cons (h : Spaced p id es es') (e : Element) : Spaced p id (e :: es) (e :: es') := by
  unfold Spaced at h ⊢
  split_ifs at h ⊢
  · obtain ⟨front, back, rfl, rfl⟩ := h
    exact ⟨e :: front, back, rfl, rfl⟩
  · rw [h]

theorem Spaced.last (h : Spaced p id es es') : lastBlock? es' = lastBlock? es := by
  unfold Spaced at h
  split_ifs at h
  · obtain ⟨front, back, rfl, rfl⟩ := h
    simp [lastBlock?, Element.isSolid]
  · rw [h]

theorem spaced_of_ne (h : id ≠ p) (es : List Element) : Spaced p id es es := by
  rw [Spaced, if_neg h]

/-- A blank line more in a block that is there already. -/
def spacing (p : Nat) : Echo :=
  .inPlace (p + 1) (Spaced p) (fun _ es hid => spaced_of_ne (Nat.ne_of_gt hid) es)
    (fun _ _ _ e h => h.snoc e) fun _ _ _ h => h.last

/-- A blank line less. -/
def unspacing (p : Nat) : Echo :=
  .inPlace (p + 1) (fun id es es' => Spaced p id es' es)
    (fun _ es hid => spaced_of_ne (Nat.ne_of_gt hid) es) (fun _ _ _ e h => h.snoc e)
    fun _ _ _ h => h.last.symm

/-- A store before and after a blank line. -/
theorem Store.echoes_spaced {s : Store} {p : Nat} (hp : p < s.size) :
    s.Echoes (spacing p) (s.push p (.text "\n")) ∧
      (s.push p (.text "\n")).Echoes (unspacing p) s := by
  have hsize : (s.push p (.text "\n")).size = s.size := size_update _ _ _
  have hget (id : BlockId) : (s.push p (.text "\n")).get? id =
      if p = id then (s.get? id).map fun b => { b with elements := b.elements ++ [.text "\n"] }
      else s.get? id := get?_update _ _ _ _
  have hspaced (es : List Element) : Spaced p p es (es ++ [.text "\n"]) := by
    rw [Spaced, if_pos rfl]
    exact ⟨es, [], by simp, by simp⟩
  constructor
  · refine ⟨rfl, hsize, hp, fun id hid => absurd hid (Nat.not_lt_zero id), fun id b hb => ?_⟩
    change ∃ b', (s.push p (.text "\n")).get? id = some b' ∧ b.Echoes 0 (Spaced p id) b'
    rw [hget]
    split_ifs with hid
    · subst hid
      rw [hb]
      exact ⟨_, rfl, Block.alike_iff_echoes.mp ⟨rfl, rfl, rfl, hspaced _⟩⟩
    · exact ⟨b, hb, Block.alike_iff_echoes.mp ⟨rfl, rfl, rfl, spaced_of_ne (Ne.symm hid) _⟩⟩
  · refine ⟨rfl, hsize.symm, hsize ▸ hp, fun id hid => absurd hid (Nat.not_lt_zero id),
      fun id b hb => ?_⟩
    change ∃ b', s.get? id = some b' ∧ b.Echoes 0 (fun es es' => Spaced p id es' es) b'
    rw [hget] at hb
    split_ifs at hb with hid
    · subst hid
      obtain ⟨old, hold, rfl⟩ := Option.map_eq_some_iff.mp hb
      exact ⟨old, hold, Block.alike_iff_echoes.mp ⟨rfl, rfl, rfl, hspaced _⟩⟩
    · exact ⟨b, hb, Block.alike_iff_echoes.mp ⟨rfl, rfl, rfl, spaced_of_ne (Ne.symm hid) _⟩⟩

end Spaced

theorem Line.classify_of_allBlank {line : String} (h : Text.allBlank line = true) :
    Line.classify line = .ok .blank := by
  have htrim : Text.trimBoth line.toList = [] := by
    rw [Text.trimBoth, Text.trimLeft, List.dropWhile_eq_nil_iff.mpr (List.all_eq_true.mp h)]
    rfl
  rw [Line.classify, htrim]

namespace Scopes

variable {s t : Scopes} {file line : String} {number : Nat}

/-- A blank line can be applied exactly if nothing has closed the innermost block. -/
theorem applyLine_blank (hline : Text.allBlank line = true) :
    Succeeds (Session.applyLine file number line) s () t ↔
      ∃ block, s.store.get? s.current.block = some block ∧ block.closed = false ∧
        t = { s with
          store := s.store.push s.current.block (.text "\n")
          log := s.log ++ [⟨.debug, s!"{file}:{number} {Construct.blank.label}"⟩] } := by
  have happlied (u : Scopes) : Succeeds (Session.append (.text "\n")) u () t ↔
      ∃ block, u.store.get? u.current.block = some block ∧ block.closed = false ∧
        t = { u with store := u.store.push u.current.block (.text "\n") } := by
    unfold Session.append
    rw [succeeds_get_bind, Session.succeeds_edit]
    constructor
    · rintro ⟨store, happend, rfl⟩
      obtain ⟨block, hblock, hopen, hplace⟩ := (Edit.append_ok_iff _).mp happend
      exact ⟨block, hblock, hopen, by rw [← (succeeds_modify _ _ _ _).mp hplace]⟩
    · rintro ⟨block, hblock, hopen, rfl⟩
      refine ⟨_, (Edit.append_ok_iff _).mpr ⟨block, hblock, hopen, ?_⟩, rfl⟩
      exact (succeeds_modify _ _ _ _).mpr rfl
  rw [Session.applyLine_ok_iff, Line.classify_of_allBlank hline]
  constructor
  · rintro ⟨c, hc, happly⟩
    obtain rfl := Except.ok.inj hc
    exact (happlied _).mp happly
  · intro h
    exact ⟨.blank, rfl, (happlied _).mpr h⟩

/-- The scopes before and after a blank line. -/
theorem echoes_of_blank (hline : Text.allBlank line = true)
    (h : Succeeds (Session.applyLine file number line) s () t) :
    s.Echoes (spacing s.current.block) t ∧ t.Echoes (unspacing s.current.block) s := by
  obtain ⟨block, hblock, _, rfl⟩ := (applyLine_blank hline).mp h
  have hshift : Scope.shift 0 [] = id := funext Scope.shift_zero
  have houter : s.outer = s.outer.map (Scope.shift 0 []) ++ [] := by
    rw [hshift, List.map_id, List.append_nil]
  obtain ⟨hspaced, hunspaced⟩ := Store.echoes_spaced (Store.lt_size_of_get? hblock)
  exact ⟨⟨hspaced, rfl, s.current.shift_zero.symm, houter⟩,
    ⟨hunspaced, rfl, s.current.shift_zero.symm, houter⟩⟩

theorem Echoes.outer_eq_nil {p : Nat} (h : s.Echoes (spacing p) t) (houter : s.outer = []) :
    t.outer = [] := by
  rw [h.outer, houter]
  rfl

end Scopes

section Scripts

/-- The other script has a blank line more, behind the first `n` lines. -/
structure Script.InsertsBlank (script other : Script) (n : Nat) : Prop where
  name : other.name = script.name
  path : other.path = script.path
  lines : ∃ line, Text.allBlank line = true ∧ Text.sourceLines other.content =
    (Text.sourceLines script.content).take n ++ line :: (Text.sourceLines script.content).drop n

variable {script other : Script} {n : Nat}

theorem Script.InsertsBlank.exists_rows (h : script.InsertsBlank other n) :
    ∃ row line rows, Text.allBlank line = true ∧
      other.lines = script.lines.take n ++ (row, line) :: rows ∧
      rows.map Prod.snd = (script.lines.drop n).map Prod.snd := by
  obtain ⟨line, hline, hlines⟩ := h.lines
  have hsplit : other.lines = script.lines.take n ++
      (((Text.sourceLines script.content).take n).length + 1, line) ::
        (((Text.sourceLines script.content).drop n).zipIdx
          (((Text.sourceLines script.content).take n).length + 2)).map fun p => (p.2, p.1) := by
    have htake : ((Text.sourceLines script.content).zipIdx 1).take n =
        ((Text.sourceLines script.content).take n).zipIdx 1 := by
      apply List.ext_getElem?
      intro i
      simp only [List.getElem?_take, List.getElem?_zipIdx]
      split_ifs <;> rfl
    unfold Script.lines
    rw [hlines, List.zipIdx_append, List.zipIdx_cons, List.map_append, List.map_cons,
      ← List.map_take, htake, Nat.add_comm 1]
  refine ⟨_, line, _, hline, hsplit, ?_⟩
  simp [Script.lines, Function.comp_def, List.map_drop]

variable {name file : String} {isModule : Bool} {deps : List Dependency} {final final' : Scopes}

/-- The lines after the blank one run without it as well, and lead to the same but for it. -/
theorem Script.InsertsBlank.runs (h : script.InsertsBlank other n)
    (hlines' : Scopes.applyLines file other.lines (.start name isModule deps) = (.ok (), final')) :
    ∃ s final block,
      Scopes.applyLines file (script.lines.take n) (.start name isModule deps) = (.ok (), s) ∧
      Scopes.applyLines file script.lines (.start name isModule deps) = (.ok (), final) ∧
      s.store.get? s.current.block = some block ∧ block.closed = false ∧
      final.Echoes (spacing s.current.block) final' := by
  obtain ⟨row, line, rows, hline, hother, hrows⟩ := h.exists_rows
  rw [hother] at hlines'
  obtain ⟨s, hfront, hrest⟩ := (Scopes.applyLines_append _ _ _ _ _).mp hlines'
  obtain ⟨t, hblank, hback'⟩ := Scopes.applyLines_cons_iff.mp hrest
  obtain ⟨block, hblock, hopen, _⟩ := (Scopes.applyLine_blank hline).mp hblank
  obtain ⟨hspaced, hunspaced⟩ := Scopes.echoes_of_blank hline hblank
  obtain ⟨constructs, _, hruns⟩ := Scopes.applyLines_ok hfront
  obtain ⟨c, _, happly⟩ := Session.applyLine_ok_iff.mp hblank
  have hnext := Scopes.Runs.snoc _ hruns (Session.apply_ok happly)
  obtain ⟨final, hback, _⟩ := Scopes.applyLines_inPlace hnext hunspaced rfl
    (fun _ _ e h => Spaced.cons h e) hrows.symm hback'
  obtain ⟨final'', hback'', hechoes⟩ := Scopes.applyLines_inPlace hruns hspaced rfl
    (fun _ _ e h => Spaced.cons h e) hrows hback
  obtain rfl : final'' = final' := congrArg Prod.snd (hback''.symm.trans hback')
  refine ⟨s, final, block, hfront, ?_, hblock, hopen, hechoes⟩
  rw [← List.take_append_drop n script.lines]
  exact (Scopes.applyLines_append _ _ _ _ _).mpr ⟨s, hfront, hback⟩

/-- Where nothing has closed the innermost block, the lines run with the blank one as well. -/
theorem Script.InsertsBlank.runs_of_open (h : script.InsertsBlank other n) {s : Scopes}
    {block : Block}
    (hfront : Scopes.applyLines file (script.lines.take n) (.start name isModule deps) =
      (.ok (), s))
    (hlines : Scopes.applyLines file script.lines (.start name isModule deps) = (.ok (), final))
    (hblock : s.store.get? s.current.block = some block) (hopen : block.closed = false) :
    ∃ final', Scopes.applyLines file other.lines (.start name isModule deps) = (.ok (), final') ∧
      final.Echoes (spacing s.current.block) final' := by
  obtain ⟨row, line, rows, hline, hother, hrows⟩ := h.exists_rows
  rw [← List.take_append_drop n script.lines] at hlines
  obtain ⟨s', hfront', hback⟩ := (Scopes.applyLines_append _ _ _ _ _).mp hlines
  obtain rfl : s' = s := congrArg Prod.snd (hfront'.symm.trans hfront)
  have hblank : Succeeds (Session.applyLine file row line) s' () _ :=
    (Scopes.applyLine_blank hline).mpr ⟨block, hblock, hopen, rfl⟩
  obtain ⟨hspaced, _⟩ := Scopes.echoes_of_blank hline hblank
  obtain ⟨constructs, _, hruns⟩ := Scopes.applyLines_ok hfront
  obtain ⟨final', hback', hechoes⟩ := Scopes.applyLines_inPlace hruns hspaced rfl
    (fun _ _ e h => Spaced.cons h e) hrows hback
  refine ⟨final', ?_, hechoes⟩
  rw [hother]
  exact (Scopes.applyLines_append _ _ _ _ _).mpr
    ⟨s', hfront, Scopes.applyLines_cons_iff.mpr ⟨_, hblank, hback'⟩⟩

end Scripts

end LineScript
