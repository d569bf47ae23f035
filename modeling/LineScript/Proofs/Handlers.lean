import LineScript.Proofs.Endless

/-!
# Named handlers

A routine with a name can be an element of a block, where it is written out, and the handler of a
signal, which refers to it by its name. Both give a routine that has none its root. A block that
is added to its root is taken to stand there already, so that the order of the two matters: a
routine that becomes a handler first is never written out where it is added afterwards.
-/
namespace LineScript

namespace Edit

variable {s : Store} {parent child : BlockId} {block inner : Block}

/-- A block without a root becomes part of any block that is not inside it. -/
theorem append_block_of_rootless (hblock : s.get? parent = some block)
    (hopen : block.closed = false) (hinner : s.get? child = some inner)
    (hfile : inner.kind.isFile = false) (hroot : inner.root = none)
    (hnot : s.isAncestor child parent = false) :
    Succeeds (append parent (.block child)) s ()
      (s.attach child parent inner block (.block child)) := by
  have hne := Store.ne_of_isAncestor hnot
  have hparent : (s.replace child { inner with root := some parent }).get? parent = some block := by
    rw [Store.get?_replace_of_ne _ (Ne.symm hne), hblock]
  apply (append_ok_iff _).mpr ⟨block, hblock, hopen, ?_⟩
  change Succeeds (appendBlock parent child) s () _
  unfold appendBlock
  simp only [hne, if_false]
  rw [succeeds_requireBlock_bind]
  refine ⟨inner, hinner, ?_⟩
  simp only [hfile, hroot, Bool.false_eq_true, if_false]
  rw [succeeds_get_bind]
  simp only [hnot, Bool.false_eq_true, if_false, succeeds_modify]
  rw [Store.setRoot, Store.update_eq_replace hinner, Store.push, Store.update_eq_replace hparent]
  rfl

/-- A block that is added to its root changes nothing. -/
theorem append_block_of_owned (hblock : s.get? parent = some block)
    (hopen : block.closed = false) (hinner : s.get? child = some inner)
    (hfile : inner.kind.isFile = false) (hroot : inner.root = some parent) :
    Succeeds (append parent (.block child)) s () s := by
  apply (append_ok_iff _).mpr ⟨block, hblock, hopen, ?_⟩
  change Succeeds (appendBlock parent child) s () s
  unfold appendBlock
  by_cases hself : child = parent
  · simp only [hself, if_true, succeeds_pure, and_self]
  simp only [hself, if_false]
  rw [succeeds_requireBlock_bind]
  refine ⟨inner, hinner, ?_⟩
  simp only [hfile, hroot, Bool.false_eq_true, if_false, if_true, succeeds_pure, and_self]

theorem append_signal_of_routine (signal : Signal) (hblock : s.get? parent = some block)
    (hopen : block.closed = false) (hinner : s.get? child = some inner)
    (hroutine : inner.kind.isRoutine = true) (hnot : s.isAncestor child parent = false) :
    Succeeds (append parent (.statement (.signal signal child))) s ()
      ((if inner.root.isNone then s.setRoot child parent else s).push parent
        (.statement (.signal signal child))) := by
  apply (append_ok_iff _).mpr ⟨block, hblock, hopen, ?_⟩
  change Succeeds (appendSignal parent signal child) s () _
  unfold appendSignal
  rw [succeeds_requireBlock_bind]
  refine ⟨inner, hinner, ?_⟩
  simp only [hroutine, Bool.not_true, Bool.false_eq_true, if_false]
  rw [succeeds_get_bind]
  simp only [hnot, Bool.false_eq_true, if_false, succeeds_modify]

end Edit

namespace Store

variable {s t : Store} {parent child : BlockId} {block inner : Block}

/-- A handler without a root belongs to the block that installs it. -/
theorem append_signal_of_rootless (signal : Signal) (hblock : s.get? parent = some block)
    (hopen : block.closed = false) (hinner : s.get? child = some inner)
    (hroutine : inner.kind.isRoutine = true) (hroot : inner.root = none)
    (hnot : s.isAncestor child parent = false) :
    Succeeds (Edit.append parent (.statement (.signal signal child))) s ()
      (s.attach child parent inner block (.statement (.signal signal child))) := by
  have hparent : (s.replace child { inner with root := some parent }).get? parent = some block := by
    rw [get?_replace_of_ne _ (ne_of_isAncestor hnot).symm, hblock]
  have happend := Edit.append_signal_of_routine signal hblock hopen hinner hroutine hnot
  rw [hroot, Option.isNone_none, if_pos rfl, setRoot, update_eq_replace hinner, push,
    update_eq_replace hparent] at happend
  exact happend

theorem append_signal_of_owned (signal : Signal) (hblock : s.get? parent = some block)
    (hopen : block.closed = false) (hinner : s.get? child = some inner)
    (hroutine : inner.kind.isRoutine = true) {root : BlockId} (hroot : inner.root = some root)
    (hnot : s.isAncestor child parent = false) :
    Succeeds (Edit.append parent (.statement (.signal signal child))) s ()
      (s.replace parent
        { block with elements := block.elements ++ [.statement (.signal signal child)] }) := by
  have happend := Edit.append_signal_of_routine signal hblock hopen hinner hroutine hnot
  rw [hroot, Option.isNone_some, if_neg Bool.false_ne_true, push, update_eq_replace hblock]
    at happend
  exact happend

theorem Forest.isAncestor_root (h : s.Forest) (hroot : s.rootOf child = some parent) :
    s.isAncestor child parent = false := by
  rw [Bool.eq_false_iff, Ne, h.isAncestor_iff]
  intro hpath
  exact h.acyclic child (.head' hroot hpath)

/-- What stands in a block afterwards stood there before or has been added. A block that is added
had no root. -/
theorem Placed.has {element : Element} (h : s.Placed parent element t) {p : BlockId} {e : Element}
    (hhas : t.Has p e) :
    s.Has p e ∨ e = element ∧ ∀ c, element = .block c → s.rootOf c = none := by
  cases h with
  | held _ => exact Or.inl hhas
  | attached hchild hinner hblock _ hroot _ =>
    refine (has_attach hinner hblock hhas).imp_right fun ⟨_, he⟩ => ⟨he, ?_⟩
    rintro c rfl
    rw [Option.some.inj hchild, rootOf_of_get? hinner, hroot]
  | installed helement _ hblock _ =>
    refine (has_replace hblock (fun e he => ?_) hhas).imp_right fun ⟨_, he⟩ => ⟨he, ?_⟩
    · exact List.mem_append.mp he |>.imp_right List.mem_singleton.mp
    · rintro c rfl
      cases helement
  | inserted hchild hblock _ _ helements =>
    refine (has_replace hblock (fun e he => ?_) hhas).imp_right fun ⟨_, he⟩ => ⟨he, ?_⟩
    · rcases helements with helements | helements <;> rw [helements] at he
      · exact List.mem_append.mp he |>.imp_right List.mem_singleton.mp
      · exact (List.mem_cons.mp he).symm
    · rintro c rfl
      cases hchild

/-- A block with a root that stands nowhere is not put anywhere by a change. -/
theorem Step.not_has {c : Change} {b root : BlockId} (hstep : s.Step c t)
    (hroot : s.rootOf b = some root) (hnone : ∀ p, ¬ s.Has p (.block b)) (p : BlockId) :
    ¬ t.Has p (.block b) := by
  intro hhas
  cases hstep with
  | idle _ fresh => exact hnone p hhas
  | made _ hfresh fresh =>
    rcases has_extend hhas with hhas | ⟨block, hblock, he⟩
    · exact hnone p hhas
    · rw [List.mem_singleton.mp hblock] at he
      cases hfresh.elements _ he
  | attempt _ condition =>
    rcases has_extend hhas with hhas | ⟨block, hblock, he⟩
    · exact hnone p hhas
    · rcases List.mem_pair.mp hblock with rfl | rfl
      · cases List.mem_singleton.mp he
      · cases he
  | added happend =>
    rcases (placed_of_append happend).has hhas with hhas | ⟨rfl, hrootless⟩
    · exact hnone p hhas
    · rw [hrootless b rfl] at hroot
      cases hroot

theorem afterAll_not_has {b root : BlockId} (hroot : s.rootOf b = some root)
    (hnone : ∀ p, ¬ s.Has p (.block b)) (changes : List Change) (p : BlockId) :
    ¬ (s.afterAll changes).Has p (.block b) := by
  have hinvariant : (s.afterAll changes).rootOf b = some root ∧
      ∀ p, ¬ (s.afterAll changes).Has p (.block b) :=
    afterAll_invariant (P := fun s => s.rootOf b = some root ∧ ∀ p, ¬ s.Has p (.block b)) changes
      ⟨hroot, hnone⟩ fun _ _ s t hstep h => ⟨hstep.grows.root b root h.1, hstep.not_has h.1 h.2⟩
  exact hinvariant.2 p

end Store

theorem toList_infix_append (front part back : String) :
    part.toList <:+: (front ++ part ++ back).toList :=
  ⟨front.toList, back.toList, by rw [String.toList_append, String.toList_append]⟩

theorem toList_infix_inBraces (front part back : String) :
    part.toList <:+: (front ++ inBraces part ++ back).toList :=
  ⟨(front ++ "\x7b\n").toList, ("\x7d" ++ back).toList, by simp [inBraces]⟩

namespace Store

variable {s : Store} {blockText routineText : BlockId → Except Fault String}

/-- Whatever is written for a block with elements, its body is part of it. -/
theorem body_infix_kindText {block : Block} {body : Except Fault String} {text : String}
    (hne : block.elements ≠ []) (h : kindText blockText routineText block body = .ok text) :
    ∃ content, body = .ok content ∧ content.toList <:+: text.toList := by
  unfold kindText at h
  cases hkind : block.kind with
  | file info =>
    simp only [hkind] at h
    exact ⟨text, h, List.infix_refl _⟩
  | plain =>
    simp only [hkind, List.isEmpty_iff, hne, if_false, except_bind_ok, except_pure_ok] at h
    obtain ⟨content, hcontent, rfl⟩ := h
    exact ⟨content, hcontent, toList_infix_inBraces "" content ";\n"⟩
  | routine info =>
    simp only [hkind, except_bind_ok, except_pure_ok] at h
    obtain ⟨content, hcontent, rfl⟩ := h
    refine ⟨content, hcontent, ?_⟩
    unfold Routine.definition
    cases info.name with
    | some name => exact toList_infix_inBraces ("sub " ++ name ++ " ") content ";\n"
    | none => exact toList_infix_inBraces "sub " content ";\n"
  | condition info =>
    simp only [hkind, except_bind_ok] at h
    obtain ⟨content, hcontent, h⟩ := h
    refine ⟨content, hcontent, ?_⟩
    split at h
    · obtain rfl := (except_pure_ok _ _).mp h
      exact toList_infix_inBraces "else " content "\n"
    · obtain rfl := (except_pure_ok _ _).mp h
      exact toList_infix_inBraces "else " content "\n"
    · obtain rfl := (except_pure_ok _ _).mp h
      exact toList_infix_inBraces _ content "\n"
  | arrayLoop loop =>
    simp only [hkind, except_bind_ok, except_pure_ok] at h
    obtain ⟨counter, _, length, _, element, _, content, hcontent, rfl⟩ := h
    refine ⟨content, hcontent, ?_⟩
    refine List.IsInfix.trans ?_ (toList_infix_inBraces "" _ ";\n")
    refine List.IsInfix.trans ?_ (List.IsSuffix.isInfix
      ⟨(counter ++ length).toList, String.toList_append.symm⟩)
    refine List.IsInfix.trans ?_ (toList_infix_inBraces _ _ ";\n")
    exact toList_infix_append element content _
  | mapLoop loop =>
    rw [hkind] at h
    cases h
  | evaluation handler =>
    simp only [hkind, except_bind_ok, except_pure_ok] at h
    obtain ⟨content, hcontent, after, _, rfl⟩ := h
    refine ⟨content, hcontent, ?_⟩
    rw [String.append_assoc]
    exact toList_infix_inBraces "eval " content (";\n" ++ after)

/-- What is written for a block holds what is written for its elements, in their order. -/
theorem elements_infix_blockText {id : BlockId} {block : Block} {text : String}
    (hblock : s.get? id = some block) (hne : block.elements ≠ []) (h : s.blockText id = .ok text) :
    ∃ texts, block.elements.mapM
        (s.elementTextBy (s.blockWithin s.size) (s.routineTextBy (s.bodyWithin s.size))) =
      .ok texts ∧ (String.join texts).toList <:+: text.toList := by
  rw [blockText, depthBound, blockWithin, (s.block_ok id block).mpr hblock] at h
  obtain ⟨content, hcontent, hinfix⟩ := body_infix_kindText hne h
  rw [bodyTextBy, except_bind_ok] at hcontent
  obtain ⟨texts, htexts, hjoin⟩ := hcontent
  obtain rfl := (except_pure_ok _ _).mp hjoin
  exact ⟨texts, htexts, hinfix⟩

theorem blockWithin_routine {id : BlockId} {block : Block} {info : Routine} {depth : Nat}
    {text : String} (hblock : s.get? id = some block) (hkind : block.kind = .routine info)
    (h : s.blockWithin depth id = .ok text) : ∃ body, text = info.definition body ++ ";\n" := by
  cases depth with
  | zero => cases h
  | succ depth =>
    rw [blockWithin, (s.block_ok id block).mpr hblock, except_bind_ok] at h
    obtain ⟨_, heq, h⟩ := h
    obtain rfl := Except.ok.inj heq
    simp only [kindText, hkind, except_bind_ok, except_pure_ok] at h
    obtain ⟨body, _, rfl⟩ := h
    exact ⟨body, rfl⟩

end Store

/-- The statement that makes a routine with a name the handler of a signal. -/
def Signal.reference (signal : Signal) (name : String) : String :=
  "$SIG\x7b" ++ signal.key ++ "\x7d = " ++ "\\&" ++ name ++ ";\n"

theorem Store.handlerText_of_name {s : Store} {id : BlockId} {block : Block} {info : Routine}
    {name : String} (hblock : s.get? id = some block) (hkind : block.kind = .routine info)
    (hname : info.name = some name) (routineText : BlockId → Except Fault String)
    (signal : Signal) : s.handlerText routineText signal id = .ok (signal.reference name) := by
  simp [handlerText, (s.block_ok id block).mpr hblock, hkind, hname, bind, Except.bind,
    Signal.reference]
  rfl

namespace Store

section Replaced

variable {s : Store} {parent child : BlockId} {block inner : Block}

theorem get?_replace_outer (child : BlockId) (hblock : s.get? parent = some block)
    (first second : Block) :
    ((s.replace child first).replace parent second).get? parent = some second := by
  have hlt : parent < (s.replace child first).size := by
    rw [size_replace]
    exact lt_size_of_get? hblock
  exact get?_replace_self hlt _

theorem get?_replace_inner (hinner : s.get? child = some inner) (hne : child ≠ parent)
    (first second : Block) :
    ((s.replace child first).replace parent second).get? child = some first := by
  rw [get?_replace_of_ne _ hne]
  exact get?_replace_self (lt_size_of_get? hinner) _

end Replaced

/-- A routine with a name that belongs to no block, and an open block that is not inside it. -/
structure Apart (s : Store) (parent routine : BlockId) (block handler : Block) (info : Routine)
    (name : String) : Prop where
  getParent : s.get? parent = some block
  unclosed : block.closed = false
  getRoutine : s.get? routine = some handler
  kind : handler.kind = .routine info
  name : info.name = some name
  rootless : handler.root = none
  outside : s.isAncestor routine parent = false

namespace Apart

variable {s : Store} {parent routine : BlockId} {block handler : Block} {info : Routine}
  {name : String}

theorem isRoutine (h : s.Apart parent routine block handler info name) :
    handler.kind.isRoutine = true := by
  rw [h.kind]
  rfl

theorem isFile (h : s.Apart parent routine block handler info name) :
    handler.kind.isFile = false := by
  rw [h.kind]
  rfl

theorem ne (h : s.Apart parent routine block handler info name) : routine ≠ parent :=
  ne_of_isAncestor h.outside

theorem not_has (h : s.Apart parent routine block handler info name) (hforest : s.Forest)
    (p : BlockId) : ¬ s.Has p (.block routine) := by
  intro hhas
  have hroot := (hforest.inner p routine hhas).1
  rw [rootOf_of_get? h.getRoutine, h.rootless] at hroot
  cases hroot

theorem count_inner (h : s.Apart parent routine block handler info name) (hforest : s.Forest) :
    block.inner.count routine = 0 := by
  rw [List.count_eq_zero, Block.mem_inner]
  exact fun hmem => h.not_has hforest parent ⟨block, h.getParent, hmem⟩

/-- The block with the routine as its last element. -/
def added (block : Block) (routine : BlockId) : Block :=
  { block with elements := block.elements ++ [.block routine] }

/-- The block that installs the routine in its last element. -/
def installing (block : Block) (signal : Signal) (routine : BlockId) : Block :=
  { block with elements := block.elements ++ [.statement (.signal signal routine)] }

theorem append_block_signal (h : s.Apart parent routine block handler info name)
    (hforest : s.Forest) (signal : Signal) :
    ∃ t u, Succeeds (Edit.append parent (.block routine)) s () t ∧
      Succeeds (Edit.append parent (.statement (.signal signal routine))) t () u ∧
      u = (s.replace routine { handler with root := some parent }).replace parent
        (installing (added block routine) signal routine) := by
  have hchild : (Element.block routine).child? = some routine := rfl
  have hattached := hforest.attach hchild h.getRoutine h.getParent h.isFile h.rootless h.outside
  have hroutine : (s.attach routine parent handler block (.block routine)).get? routine =
      some { handler with root := some parent } := get?_replace_inner h.getRoutine h.ne _ _
  refine ⟨_, _, Edit.append_block_of_rootless h.getParent h.unclosed h.getRoutine h.isFile
    h.rootless h.outside, append_signal_of_owned signal (get?_replace_outer routine h.getParent _ _)
    h.unclosed hroutine h.isRoutine rfl (hattached.isAncestor_root (rootOf_of_get? hroutine)), ?_⟩
  exact replace_replace _ _ _ _

theorem append_signal_block (h : s.Apart parent routine block handler info name)
    (signal : Signal) :
    ∃ t, Succeeds (Edit.append parent (.statement (.signal signal routine))) s () t ∧
      Succeeds (Edit.append parent (.block routine)) t () t ∧
      t = (s.replace routine { handler with root := some parent }).replace parent
        (installing block signal routine) := by
  refine ⟨_, append_signal_of_rootless signal h.getParent h.unclosed h.getRoutine h.isRoutine
    h.rootless h.outside, Edit.append_block_of_owned (get?_replace_outer routine h.getParent _ _)
    h.unclosed (get?_replace_inner h.getRoutine h.ne _ _) h.isFile rfl, rfl⟩

/-- Where the last element of a block installs a routine with a name, the text of the block refers
to the routine right after the texts of the other elements. -/
theorem reference_infix {signal : Signal}
    (hparent : s.get? parent = some (installing block signal routine))
    (hroutine : s.get? routine = some handler) (hkind : handler.kind = .routine info)
    (hname : info.name = some name) {text : String} (h : s.blockText parent = .ok text) :
    ∃ texts, block.elements.mapM
        (s.elementTextBy (s.blockWithin s.size) (s.routineTextBy (s.bodyWithin s.size))) =
      .ok texts ∧ (String.join texts ++ signal.reference name).toList <:+: text.toList := by
  obtain ⟨all, hall, hinfix⟩ := elements_infix_blockText hparent (by simp [installing]) h
  simp only [installing, List.mapM_append, List.mapM_cons, List.mapM_nil, except_bind_ok,
    except_pure_ok] at hall
  obtain ⟨texts, htexts, _, ⟨last, hlast, _, rfl, rfl⟩, rfl⟩ := hall
  rw [elementTextBy, statementTextBy, handlerText_of_name hroutine hkind hname] at hlast
  obtain rfl := Except.ok.inj hlast
  refine ⟨texts, htexts, ?_⟩
  simpa [String.join_append] using hinfix

/-- A routine that stands before the statement that installs it is written out before it. -/
theorem definition_infix {signal : Signal}
    (hparent : s.get? parent = some (installing (added block routine) signal routine))
    (hroutine : s.get? routine = some handler) (hkind : handler.kind = .routine info)
    (hname : info.name = some name) {text : String} (h : s.blockText parent = .ok text) :
    ∃ body, (info.definition body ++ ";\n" ++ signal.reference name).toList <:+: text.toList := by
  obtain ⟨all, hall, hinfix⟩ := reference_infix hparent hroutine hkind hname h
  simp only [added, List.mapM_append, List.mapM_cons, List.mapM_nil, except_bind_ok,
    except_pure_ok] at hall
  obtain ⟨texts, _, _, ⟨last, hlast, _, rfl, rfl⟩, rfl⟩ := hall
  obtain ⟨body, rfl⟩ := blockWithin_routine hroutine hkind hlast
  refine ⟨body, List.IsInfix.trans (List.IsSuffix.isInfix ⟨(String.join texts).toList, ?_⟩) hinfix⟩
  simp

end Apart

end Store

/-- Whatever changes have led to a store: a routine with a name that belongs to no block can be
added to an open block that is not inside it and become the handler of a signal there, in either
order. If it is added first, it stands in the block once and is written out before the statement
that refers to it. If it becomes a handler first, adding it changes nothing: it does not stand in
the block, and no later change puts it there or anywhere else, so that the block only refers to
it. Every other block is the same after both. -/
theorem handler_order_decides (changes : List Change) (signal : Signal) {parent routine : BlockId}
    {block handler : Block} {info : Routine} {name : String}
    (h : (Store.ofChanges changes).Apart parent routine block handler info name) :
    ∃ t u v both alone,
      Succeeds (Edit.append parent (.block routine)) (Store.ofChanges changes) () t ∧
      Succeeds (Edit.append parent (.statement (.signal signal routine))) t () u ∧
      u.get? parent = some both ∧ both.inner.count routine = 1 ∧
      both.elements = block.elements ++ [.block routine, .statement (.signal signal routine)] ∧
      (∀ text, u.blockText parent = .ok text → ∃ body,
        (info.definition body ++ ";\n" ++ signal.reference name).toList <:+: text.toList) ∧
      Succeeds (Edit.append parent (.statement (.signal signal routine)))
        (Store.ofChanges changes) () v ∧
      Succeeds (Edit.append parent (.block routine)) v () v ∧
      v.get? parent = some alone ∧ alone.inner.count routine = 0 ∧
      alone.elements = block.elements ++ [.statement (.signal signal routine)] ∧
      (∀ text, v.blockText parent = .ok text →
        (signal.reference name).toList <:+: text.toList) ∧
      (∀ more p, ¬ (v.afterAll more).Has p (.block routine)) ∧
      ∀ b, b ≠ parent → u.get? b = v.get? b := by
  have hforest := Store.forest_ofChanges changes
  have hcount := h.count_inner hforest
  obtain ⟨t, u, hblock, hsignal, rfl⟩ := h.append_block_signal hforest signal
  obtain ⟨v, hinstall, hadd, rfl⟩ := h.append_signal_block signal
  have hparent (after : Block) := Store.get?_replace_outer routine h.getParent
    { handler with root := some parent } after
  have hroutine (after : Block) := Store.get?_replace_inner h.getRoutine h.ne
    { handler with root := some parent } after
  refine ⟨t, _, _, _, _, hblock, hsignal, hparent _, ?_, ?_, ?_, hinstall, hadd, hparent _, ?_, rfl,
    ?_, ?_, ?_⟩
  · rw [Store.Apart.installing, Block.inner_snoc, Store.Apart.added, Block.inner_snoc]
    simp [Element.inner?, hcount]
  · simp [Store.Apart.installing, Store.Apart.added]
  · intro text htext
    exact Store.Apart.definition_infix (hparent _) (hroutine _) h.kind h.name htext
  · rw [Store.Apart.installing, Block.inner_snoc]
    simp [Element.inner?, hcount]
  · intro text htext
    obtain ⟨texts, _, hinfix⟩ :=
      Store.Apart.reference_infix (hparent _) (hroutine _) h.kind h.name htext
    refine List.IsInfix.trans (List.IsSuffix.isInfix ⟨(String.join texts).toList, ?_⟩) hinfix
    rw [String.toList_append]
  · refine Store.afterAll_not_has (Store.rootOf_of_get? (hroutine _)) fun p hhas => ?_
    rcases Store.has_attach h.getRoutine h.getParent hhas with hhas | ⟨_, heq⟩
    · exact h.not_has hforest p hhas
    · cases heq
  · intro b hb
    rw [Store.get?_replace_of_ne _ hb, Store.get?_replace_of_ne _ hb]

/-- A file, and beside it a routine that belongs to no block. -/
def routineBesideFile : List Change :=
  [.newFile "t" false [], .newRoutine (some "on_hup") [⟨"sig", none⟩] .shift none]

def fileOfHandler : Block :=
  ⟨.file ⟨"t", false, true, none⟩, [], false, none⟩

def looseHandler : Block :=
  ⟨.routine ⟨some "on_hup", ["sig"], .shift, none, none⟩,
    [.statement (.binding ⟨[⟨"sig", none⟩], .shift⟩)], false, none⟩

theorem apart_routineBesideFile :
    (Store.ofChanges routineBesideFile).Apart 0 1 fileOfHandler looseHandler
      ⟨some "on_hup", ["sig"], .shift, none, none⟩ "on_hup" :=
  ⟨rfl, rfl, rfl, rfl, rfl, rfl, rfl⟩

theorem handler_order_decides_beside_file :
    (Store.ofChanges (routineBesideFile ++
        [.append 0 (.block 1), .append 0 (.statement (.signal .hup 1))])).blockText 0 =
      .ok "sub on_hup \x7b\nmy $sig = shift;\n\x7d;\n$SIG\x7bHUP\x7d = \\&on_hup;\n" ∧
    ∃ t u v both, Succeeds (Edit.append 0 (.block 1)) (Store.ofChanges routineBesideFile) () t ∧
      Succeeds (Edit.append 0 (.statement (.signal .hup 1))) t () u ∧
      u.get? 0 = some both ∧ both.inner.count 1 = 1 ∧
      Succeeds (Edit.append 0 (.statement (.signal .hup 1)))
        (Store.ofChanges routineBesideFile) () v ∧
      Succeeds (Edit.append 0 (.block 1)) v () v ∧
      ∀ more p, ¬ (v.afterAll more).Has p (.block 1) := by
  obtain ⟨t, u, v, both, _, hblock, hsignal, hboth, hcount, _, _, hinstall, hadd, _, _, _, _,
    hnever, _⟩ := handler_order_decides routineBesideFile .hup apart_routineBesideFile
  exact ⟨rfl, t, u, v, both, hblock, hsignal, hboth, hcount, hinstall, hadd, hnever⟩

/-- The routine is added to a file that it handles a signal in, and the file does not define it. -/
theorem handler_before_routine_undefined :
    (Store.ofChanges routineBesideFile).Apart 0 1 fileOfHandler looseHandler
      ⟨some "on_hup", ["sig"], .shift, none, none⟩ "on_hup" ∧
    ∃ t u file, Succeeds (Edit.append 0 (.statement (.signal .hup 1)))
        (Store.ofChanges routineBesideFile) () t ∧
      Succeeds (Edit.append 0 (.block 1)) t () u ∧
      u.get? 0 = some file ∧ file.inner.count 1 = 0 ∧
      u.blockText 0 = .ok "$SIG\x7bHUP\x7d = \\&on_hup;\n" :=
  ⟨apart_routineBesideFile, _, _, _, rfl, rfl, rfl, rfl, rfl⟩

end LineScript
