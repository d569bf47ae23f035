import LineScript.Proofs.Rendering
import LineScript.Proofs.Shifted

/-!
# Texts of moved blocks

A store may hold blocks of another store under later numbers. If it holds with a block all blocks
inside, the block has the same text in both: what a script stores goes to routines by name, so that
numbers show in the links between blocks only.
-/
namespace LineScript

variable {k : Nat}

/-- A call without a name depends on the text of the routine. -/
theorem RoutineCall.name_isSome_of_expression {call : RoutineCall} {text : String}
    (h : call.expression (fun id => .error (.notRoutineText id)) = .ok text) :
    call.name.isSome = true := by
  obtain ⟨routine, name, returned, arguments⟩ := call
  cases name with
  | some name => rfl
  | none =>
    rw [RoutineCall.expression] at h
    obtain ⟨_, _, h⟩ := (except_bind_ok _ _ _).mp h
    obtain ⟨_, hroutine, _⟩ := (except_bind_ok _ _ _).mp h
    cases hroutine

theorem Value.Settled.expression_shift {v : Value} (h : v.Settled)
    (routineText routineText' : BlockId → Except Fault String) :
    (v.shift k).expression routineText' = v.expression routineText := by
  obtain ⟨text, htext⟩ := h
  rw [htext, ← htext routineText']
  obtain ⟨kind, name, element, source, unwraps⟩ := v
  cases source with
  | literal _ | «variable» _ | method _ | arguments => rfl
  | routine call =>
    have hvalue := htext fun id => .error (.notRoutineText id)
    rw [Value.expression] at hvalue
    obtain ⟨_, hcall, _⟩ := (except_bind_ok _ _ _).mp hvalue
    have hname := RoutineCall.name_isSome_of_expression hcall
    simp only [Value.shift, Source.shift, Value.expression, RoutineCall.expression_shift hname]

theorem Value.Settled.declaration_shift {v : Value} (h : v.Settled)
    (routineText routineText' : BlockId → Except Fault String) :
    (v.shift k).declaration routineText' = v.declaration routineText := by
  unfold Value.declaration
  rw [h.expression_shift routineText routineText']
  rfl

theorem Return.text_shift {r : Return} (h : r.values.all ReturnedValue.isNamed = true)
    (routineText routineText' : BlockId → Except Fault String) :
    (r.shift k).text routineText' = r.text routineText := by
  have hvalue (value : ReturnedValue) (hvalue : value ∈ r.values) :
      valueText routineText' (value.shift k) = valueText routineText value := by
    have hnamed := List.all_eq_true.mp h value hvalue
    cases value with
    | raw text => rfl
    | value content =>
      obtain ⟨name, hname⟩ := Option.isSome_iff_exists.mp hnamed
      have hname' : (content.shift k).name = some name := hname
      rw [ReturnedValue.shift, valueText, valueText, hname, hname']
  have hvalues : (r.values.map (ReturnedValue.shift k)).mapM (valueText routineText') =
      r.values.mapM (valueText routineText) := by
    rw [List.mapM_map]
    exact except_mapM_congr hvalue
  unfold text
  rw [← hvalues]
  rfl

namespace Store

/-- The second store holds the blocks of a region of the first under shifted numbers. Blocks inside
a block of the region belong to it too. -/
structure Moved (k : Nat) (region : BlockId → Prop) (s t : Store) : Prop where
  block : ∀ id b, region id → s.get? id = some b → ∃ b', t.get? (id + k) = some b' ∧
    b'.kind = b.kind.shift k ∧ b'.elements = b.elements.map (Element.shift k)
  children : ∀ id c, region id → c ∈ s.childrenOf id → region c
  files : ∀ id b, region id → s.get? id = some b → b.kind.isFile = true → k = 0

variable {s t : Store} {region : BlockId → Prop}

section Texts

variable {blockText blockText' bodyText bodyText' : BlockId → Except Fault String} {b b' : Block}

theorem kindText_shift (hsettled : b.kind.Settled) (hfile : b.kind.isFile = true → k = 0)
    (hkind : b'.kind = b.kind.shift k) (helements : b'.elements.isEmpty = b.elements.isEmpty)
    (hhandler : ∀ handler, b.kind.companion = some handler →
      blockText' (handler + k) = blockText handler)
    (routineText routineText' : BlockId → Except Fault String) (body : Except Fault String) :
    kindText blockText' routineText' b' body = kindText blockText routineText b body := by
  unfold kindText
  rw [hkind]
  cases hcase : b.kind with
  | plain => simp only [BlockKind.shift, helements]
  | file info =>
    rw [hcase] at hfile
    simp only [BlockKind.shift, hfile rfl, if_true]
  | routine _ | condition _ | mapLoop _ => rfl
  | arrayLoop loop =>
    rw [hcase] at hsettled
    obtain ⟨_, hcounter⟩ := hsettled.1.declaration
    obtain ⟨_, hlength⟩ := hsettled.2.1.declaration
    obtain ⟨_, helement⟩ := hsettled.2.2.declaration
    simp only [BlockKind.shift, hcounter, hlength, helement]
  | evaluation handler =>
    rw [hcase] at hhandler
    simp only [BlockKind.shift, hhandler handler rfl]

theorem Moved.elementTextBy (h : s.Moved k region t) {e : Element} (hsettled : e.Settled s)
    (hchild : ∀ c, e.child? = some c →
      region c ∧ blockText' (c + k) = blockText c ∧ bodyText' (c + k) = bodyText c) :
    t.elementTextBy blockText' (t.routineTextBy bodyText') (e.shift k) =
      s.elementTextBy blockText (s.routineTextBy bodyText) e := by
  cases e with
  | text content => rfl
  | block child => exact (hchild child rfl).2.1
  | value v => exact hsettled.declaration_shift _ _
  | method call =>
    obtain ⟨text, htext⟩ := hsettled
    simp only [Element.shift, Store.elementTextBy, htext]
  | statement content =>
    cases content with
    | dependency _ | binding _ | print _ | exit _ | package _ => rfl
    | giveBack r => exact Return.text_shift hsettled _ _
    | assign a =>
      have htext : (a.value.shift k).expression (t.routineTextBy bodyText') =
          a.value.expression (s.routineTextBy bodyText) := hsettled.expression_shift _ _
      simp only [Element.shift, Statement.shift, Assignment.shift, Store.elementTextBy,
        statementTextBy, htext]
    | signal signal routine =>
      obtain ⟨hregion, _, hbody⟩ := hchild routine rfl
      obtain ⟨block, info, hblock, hkind, hname⟩ := IsRoutine.get? hsettled
      obtain ⟨block', hblock', hkind', _⟩ :=
        h.block routine block hregion ((block_ok _ _ _).mp hblock)
      rw [hkind] at hkind'
      simp only [Element.shift, Statement.shift, Store.elementTextBy, statementTextBy]
      rw [handlerText_of_kind hblock hkind hname,
        handlerText_of_kind ((block_ok _ _ _).mpr hblock') hkind' hname,
        routineTextBy_of_kind hblock hkind,
        routineTextBy_of_kind ((block_ok _ _ _).mpr hblock') hkind', hbody]

theorem Moved.mapM_elementTextBy (h : s.Moved k region t) {es : List Element}
    (hsettled : ∀ e ∈ es, e.Settled s)
    (hchildren : ∀ e ∈ es, ∀ c, e.child? = some c →
      region c ∧ blockText' (c + k) = blockText c ∧ bodyText' (c + k) = bodyText c) :
    (es.map (Element.shift k)).mapM (t.elementTextBy blockText' (t.routineTextBy bodyText')) =
      es.mapM (s.elementTextBy blockText (s.routineTextBy bodyText)) := by
  rw [List.mapM_map]
  exact except_mapM_congr fun e he => h.elementTextBy (hsettled e he) (hchildren e he)

theorem Moved.bodyTextBy (h : s.Moved k region t) (hsettled : ∀ e ∈ b.elements, e.Settled s)
    (helements : b'.elements = b.elements.map (Element.shift k))
    (hchildren : ∀ c ∈ b.children,
      region c ∧ blockText' (c + k) = blockText c ∧ bodyText' (c + k) = bodyText c) :
    t.bodyTextBy blockText' (t.routineTextBy bodyText') b' =
      s.bodyTextBy blockText (s.routineTextBy bodyText) b := by
  have htexts := h.mapM_elementTextBy hsettled fun e he c hc =>
    hchildren c (mem_children_of_element he hc)
  unfold Store.bodyTextBy
  rw [helements, htexts]

end Texts

/-- A block has the text that it had before it was moved. -/
theorem Moved.within (h : s.Moved k region t) (hs : s.Settled) {depth : Nat} {id : BlockId}
    (hnests : s.NestsWithin depth id) (hid : region id) :
    t.blockWithin depth (id + k) = s.blockWithin depth id ∧
      t.bodyWithin depth (id + k) = s.bodyWithin depth id := by
  induction hnests with
  | @intro depth id b hb _ ih =>
    obtain ⟨b', hb', hkind, helements⟩ := h.block id b hid hb
    have hchildren (c : BlockId) (hc : c ∈ b.children) :=
      have hregion : region c := h.children id c hid (childrenOf_of_get? hb ▸ hc)
      And.intro hregion (ih c hc hregion)
    have hbody := h.bodyTextBy (fun e he => hs.element e ⟨id, b, hb, he⟩) helements hchildren
    have hempty : b'.elements.isEmpty = b.elements.isEmpty := by rw [helements, List.isEmpty_map]
    have hok := (s.block_ok id b).mpr hb
    have hok' := (t.block_ok _ b').mpr hb'
    constructor
    · rw [blockWithin, blockWithin, hok, hok']
      change kindText _ _ b' _ = kindText _ _ b _
      rw [hbody]
      refine kindText_shift (kind_settled_of_get? hs hb) (h.files id b hid hb) hkind hempty ?_ _ _ _
      intro handler hhandler
      exact (hchildren handler (List.mem_append_left _ (Option.mem_toList.mpr hhandler))).2.1
    · rw [bodyWithin, bodyWithin, hok, hok']
      exact hbody

end Store

end LineScript
