import LineScript.Proofs.Stored
import LineScript.Proofs.Tree

/-!
# Rendering of a compiled script

The text of a compiled script exists unless the script loops over a map, and a loop over a map is
the only thing that can go wrong. `Verdict` says this of a single computation, together with the
condition under which it gives a text; the conditions of the parts of a block make up that of the
block. The depth of the store bounds the recursion, so that the bound itself is never met.
-/
namespace LineScript

/-- The computation gives a result if the condition holds, and fails at a loop over a map if it
does not. -/
inductive Verdict {α : Type} (clean : Prop) : Except Fault α → Prop where
  | ok (a : α) (h : clean) : Verdict clean (.ok a)
  | mapLoop (name : String) (h : ¬ clean) : Verdict clean (.error (.mapLoopText name))

namespace Verdict

variable {α β : Type} {P Q : Prop}

theorem congr {x : Except Fault α} (h : Verdict P x) (hiff : P ↔ Q) : Verdict Q x := by
  rwa [← propext hiff]

theorem map {x : Except Fault α} (h : Verdict P x) (f : α → β) :
    Verdict P (x >>= fun a => pure (f a)) := by
  cases h with
  | ok a h => exact .ok (f a) h
  | mapLoop name h => exact .mapLoop name h

theorem bind {x : Except Fault α} {f : α → Except Fault β} (h : Verdict P x)
    (hf : ∀ a, Verdict Q (f a)) : Verdict (P ∧ Q) (x >>= f) := by
  cases h with
  | ok a h => exact (hf a).congr (and_iff_right h).symm
  | mapLoop name h => exact .mapLoop name fun hboth => h hboth.1

theorem mapM {as : List α} {f : α → Except Fault β} {P : α → Prop}
    (h : ∀ a ∈ as, Verdict (P a) (f a)) : Verdict (∀ a ∈ as, P a) (as.mapM f) := by
  induction as with
  | nil => exact .ok [] (by simp)
  | cons a as ih =>
    rw [List.mapM_cons]
    have hrest := ih fun b hb => h b (List.mem_cons_of_mem _ hb)
    exact ((h a List.mem_cons_self).bind fun b => hrest.map (b :: ·)).congr
      List.forall_mem_cons.symm

theorem ok_iff {x : Except Fault α} (h : Verdict P x) : (∃ a, x = .ok a) ↔ P := by
  cases h with
  | ok a h => exact iff_of_true ⟨a, rfl⟩ h
  | mapLoop name h => exact iff_of_false (by simp) h

theorem cls_of_error {x : Except Fault α} (h : Verdict P x) {fault : Fault}
    (herror : x = .error fault) : fault.cls = .unsupported := by
  cases h with
  | ok a h => cases herror
  | mapLoop name h =>
    obtain rfl := Except.error.inj herror
    rfl

end Verdict

theorem Return.valueTexts_of_named {values : List ReturnedValue}
    (h : values.all ReturnedValue.isNamed = true) :
    ∃ texts, ∀ routineText, values.mapM (valueText routineText) = .ok texts := by
  induction values with
  | nil => exact ⟨[], fun _ => rfl⟩
  | cons value rest ih =>
    rw [List.all_cons, Bool.and_eq_true] at h
    obtain ⟨texts, htexts⟩ := ih h.2
    have hfirst : ∃ text, ∀ routineText, valueText routineText value = .ok text := by
      cases value with
      | raw text => exact ⟨text, fun _ => rfl⟩
      | value content =>
        obtain ⟨name, hname⟩ := Option.isSome_iff_exists.mp h.1
        exact ⟨"$" ++ name, fun _ => by rw [valueText, hname]⟩
    obtain ⟨text, htext⟩ := hfirst
    refine ⟨text :: texts, fun routineText => ?_⟩
    rw [List.mapM_cons, htext, htexts]
    rfl

theorem Return.text_of_named {r : Return} (h : r.values.all ReturnedValue.isNamed = true) :
    ∃ text, ∀ routineText, r.text routineText = .ok text := by
  obtain ⟨texts, htexts⟩ := valueTexts_of_named h
  cases hmultiple : r.multiple with
  | true =>
    refine ⟨"return (" ++ Text.joinWith "," texts ++ ");\n", fun routineText => ?_⟩
    rw [Return.text, htexts, hmultiple]
    rfl
  | false =>
    cases texts with
    | nil =>
      refine ⟨"return;\n", fun routineText => ?_⟩
      rw [Return.text, htexts, hmultiple]
      rfl
    | cons text rest =>
      refine ⟨"return " ++ text ++ ";\n", fun routineText => ?_⟩
      rw [Return.text, htexts, hmultiple]
      rfl

namespace Store

variable {s : Store}

/-- The text of an element: fixed, that of a block, or made from the body of a routine. -/
inductive HasForm (s : Store) (e : Element) : Prop where
  | fixed (text : String) (hchild : e.child? = none)
      (h : ∀ blockText routineText, s.elementTextBy blockText routineText e = .ok text)
  | inner (c : BlockId) (hchild : e.child? = some c)
      (h : ∀ blockText routineText, s.elementTextBy blockText routineText e = blockText c)
  | handler (c : BlockId) (wrap : String → String) (hchild : e.child? = some c)
      (hroutine : s.IsRoutine c none)
      (h : ∀ blockText bodyText, s.elementTextBy blockText (s.routineTextBy bodyText) e =
        bodyText c >>= fun body => pure (wrap body))

theorem IsRoutine.get? {id : BlockId} {name : Option String} (h : s.IsRoutine id name) :
    ∃ block info, s.block id = .ok block ∧ block.kind = .routine info ∧ info.name = name := by
  obtain ⟨info, hkind, rfl⟩ := h
  obtain ⟨block, hblock, hfixed⟩ := Option.map_eq_some_iff.mp hkind
  cases hblockKind : block.kind with
  | routine info' =>
    rw [hblockKind] at hfixed
    obtain rfl := BlockKind.routine.inj hfixed
    exact ⟨block, info', (s.block_ok id block).mpr hblock, hblockKind, rfl⟩
  | plain | file _ | condition _ | arrayLoop _ | mapLoop _ | evaluation _ =>
    rw [hblockKind] at hfixed
    cases hfixed

theorem routineTextBy_of_kind {id : BlockId} {block : Block} {info : Routine}
    (hblock : s.block id = .ok block) (hkind : block.kind = .routine info)
    (bodyText : BlockId → Except Fault String) :
    s.routineTextBy bodyText id = bodyText id >>= fun body => pure (info.definition body) := by
  simp [routineTextBy, hblock, hkind, bind, Except.bind]

theorem handlerText_of_kind {id : BlockId} {block : Block} {info : Routine}
    (hblock : s.block id = .ok block) (hkind : block.kind = .routine info)
    (hname : info.name = none) (routineText : BlockId → Except Fault String) (signal : Signal) :
    s.handlerText routineText signal id =
      routineText id >>= fun text => pure ("$SIG\x7b" ++ signal.key ++ "\x7d = " ++ text ++ ";\n") := by
  simp [handlerText, hblock, hkind, hname, bind, Except.bind]

theorem hasForm_of_settled {e : Element} (h : e.Settled s) : s.HasForm e := by
  cases e with
  | text content => exact .fixed content rfl fun _ _ => rfl
  | block child => exact .inner child rfl fun _ _ => rfl
  | value v =>
    obtain ⟨text, htext⟩ := Value.Settled.declaration h
    exact .fixed text rfl fun _ routineText => htext routineText
  | method call =>
    obtain ⟨text, htext⟩ := h
    refine .fixed (text ++ ";\n") rfl fun _ routineText => ?_
    rw [elementTextBy, htext]
    rfl
  | statement content =>
    cases content with
    | dependency d => exact .fixed d.text rfl fun _ _ => rfl
    | binding b => exact .fixed b.text rfl fun _ _ => rfl
    | print p => exact .fixed p.text rfl fun _ _ => rfl
    | exit code => exact .fixed _ rfl fun _ _ => rfl
    | package path => exact .fixed _ rfl fun _ _ => rfl
    | giveBack r =>
      obtain ⟨text, htext⟩ := Return.text_of_named h
      exact .fixed text rfl fun _ routineText => htext routineText
    | assign a =>
      obtain ⟨text, htext⟩ := h
      refine .fixed (a.target.reference ++ " = " ++ text ++ ";\n") rfl fun _ routineText => ?_
      rw [elementTextBy, statementTextBy, htext]
      rfl
    | signal signal routine =>
      obtain ⟨block, info, hblock, hkind, hname⟩ := IsRoutine.get? h
      refine .handler routine
        (fun body => "$SIG\x7b" ++ signal.key ++ "\x7d = " ++ info.definition body ++ ";\n") rfl h ?_
      intro blockText bodyText
      rw [elementTextBy, statementTextBy, handlerText_of_kind hblock hkind hname,
        routineTextBy_of_kind hblock hkind]
      cases bodyText routine <;> rfl

/-- The text of a block: made from its body, empty, refused, or followed by that of a handler. -/
inductive HasKindForm (block : Block) : Prop where
  | wrapped (wrap : String → String) (hcompanion : block.kind.companion = none)
      (hloop : ∀ loop, block.kind ≠ .mapLoop loop)
      (h : ∀ blockText routineText body, kindText blockText routineText block body =
        body >>= fun body => pure (wrap body))
  | empty (hkind : block.kind = .plain) (helements : block.elements = [])
      (h : ∀ blockText routineText body, kindText blockText routineText block body = .ok "")
  | mapLoop (loop : MapLoop) (hkind : block.kind = .mapLoop loop)
      (h : ∀ blockText routineText body, kindText blockText routineText block body =
        .error (.mapLoopText loop.map.name))
  | evaluation (handler : BlockId) (wrap : String → String → String)
      (hkind : block.kind = .evaluation handler)
      (h : ∀ blockText routineText body, kindText blockText routineText block body =
        body >>= fun body => blockText handler >>= fun after => pure (wrap body after))

theorem hasKindForm {block : Block} (h : block.kind.Settled) : HasKindForm block := by
  cases hkind : block.kind with
  | plain =>
    cases helements : block.elements with
    | nil =>
      refine .empty hkind helements fun _ _ _ => ?_
      simp only [kindText, hkind, helements, List.isEmpty_nil, if_true]
      rfl
    | cons e rest =>
      refine .wrapped (fun body => inBraces body ++ ";\n") (by rw [hkind]; rfl) (by simp [hkind])
        fun _ _ _ => ?_
      simp only [kindText, hkind, helements, List.isEmpty_cons, Bool.false_eq_true, if_false]
  | file info =>
    refine .wrapped id (by rw [hkind]; rfl) (by simp [hkind]) fun _ _ body => ?_
    simp only [kindText, hkind, id_eq, bind_pure]
  | routine info =>
    refine .wrapped (fun body => info.definition body ++ ";\n") (by rw [hkind]; rfl)
      (by simp [hkind]) fun _ _ _ => ?_
    simp only [kindText, hkind]
  | condition info =>
    obtain ⟨wrap, hwrap⟩ : ∃ wrap : String → String, ∀ blockText routineText body,
        kindText blockText routineText block body = body >>= fun body => pure (wrap body) := by
      simp only [kindText, hkind]
      cases info.branch <;> cases info.test <;> exact ⟨_, fun _ _ _ => rfl⟩
    exact .wrapped wrap (by rw [hkind]; rfl) (by simp [hkind]) hwrap
  | arrayLoop loop =>
    rw [hkind] at h
    obtain ⟨counter, hcounter⟩ := h.1.declaration
    obtain ⟨length, hlength⟩ := h.2.1.declaration
    obtain ⟨element, helement⟩ := h.2.2.declaration
    let index := "$" ++ loop.counter.name.getD ""
    let test := index ++ "->valueOf() < $" ++ loop.length.name.getD ""
    let step := index ++ "->add(1);\n"
    refine .wrapped
      (fun body => inBraces (counter ++ length ++
        ("while (" ++ test ++ ") " ++ inBraces (element ++ body ++ step) ++ ";\n")) ++ ";\n")
      (by rw [hkind]; rfl) (by simp [hkind]) fun _ _ _ => ?_
    simp only [kindText, hkind, hcounter, hlength, helement]
    rfl
  | mapLoop loop =>
    refine .mapLoop loop hkind fun _ _ _ => ?_
    simp only [kindText, hkind]
    rfl
  | evaluation handler =>
    refine .evaluation handler (fun body after => "eval " ++ inBraces body ++ ";\n" ++ after) hkind
      fun _ _ _ => ?_
    simp only [kindText, hkind]

/-- No loop over a map is reached from the block. -/
def MapFree (s : Store) (b : BlockId) : Prop :=
  ∀ c, Relation.ReflTransGen s.Holds b c → ∀ loop, s.kindOf c ≠ some (.mapLoop loop)

theorem mapFree_iff (b : BlockId) :
    s.MapFree b ↔
      (∀ loop, s.kindOf b ≠ some (.mapLoop loop)) ∧ ∀ c ∈ s.childrenOf b, s.MapFree c := by
  constructor
  · intro h
    exact ⟨h b .refl, fun c hc d hd => h d (.head hc hd)⟩
  · rintro ⟨hself, hchildren⟩ c hc
    rcases hc.cases_head with rfl | ⟨d, hd, hc⟩
    · exact hself
    · exact hchildren d hd c hc

/-- The body of a block is clean if all blocks held by its elements are. -/
def BodyFree (s : Store) (block : Block) : Prop :=
  ∀ e ∈ block.elements, ∀ c, e.child? = some c → s.MapFree c

theorem mapFree_of_get? {b : BlockId} {block : Block} (h : s.get? b = some block) :
    s.MapFree b ↔ (∀ loop, block.kind ≠ .mapLoop loop) ∧
      (∀ c, block.kind.companion = some c → s.MapFree c) ∧ s.BodyFree block := by
  rw [mapFree_iff, childrenOf_of_get? h, kindOf_of_get? h]
  simp only [ne_eq, Option.some.injEq, BlockKind.fixed_eq_mapLoop]
  apply and_congr_right
  intro _
  simp only [Block.children, BodyFree, List.mem_append, Option.mem_toList, List.mem_filterMap]
  constructor
  · intro hfree
    exact ⟨fun c hc => hfree c (Or.inl hc), fun e he c hc => hfree c (Or.inr ⟨e, he, hc⟩)⟩
  · rintro ⟨hcompanion, hbody⟩ c (hc | ⟨e, he, hc⟩)
    · exact hcompanion c hc
    · exact hbody e he c hc

section Texts

variable {blockText bodyText : BlockId → Except Fault String} {block : Block}

theorem verdict_element {e : Element} (h : s.HasForm e)
    (hblock : ∀ c, e.child? = some c → Verdict (s.MapFree c) (blockText c))
    (hbody : ∀ c, e.child? = some c → s.IsRoutine c none → Verdict (s.MapFree c) (bodyText c)) :
    Verdict (∀ c, e.child? = some c → s.MapFree c)
      (s.elementTextBy blockText (s.routineTextBy bodyText) e) := by
  cases h with
  | fixed text hchild h =>
    rw [h]
    exact .ok text (by simp [hchild])
  | inner c hchild h =>
    rw [h]
    exact (hblock c hchild).congr (by simp [hchild])
  | handler c wrap hchild hroutine h =>
    rw [h]
    exact ((hbody c hchild hroutine).map wrap).congr (by simp [hchild])

theorem mem_children_of_element {e : Element} {c : BlockId} (he : e ∈ block.elements)
    (hc : e.child? = some c) : c ∈ block.children :=
  List.mem_append_right _ (List.mem_filterMap.mpr ⟨e, he, hc⟩)

theorem verdict_body (helements : ∀ e ∈ block.elements, s.HasForm e)
    (hblock : ∀ c ∈ block.children, Verdict (s.MapFree c) (blockText c))
    (hbody : ∀ c ∈ block.children, s.IsRoutine c none → Verdict (s.MapFree c) (bodyText c)) :
    Verdict (s.BodyFree block) (s.bodyTextBy blockText (s.routineTextBy bodyText) block) := by
  refine Verdict.map (Verdict.mapM fun e he => ?_) String.join
  exact verdict_element (helements e he)
    (fun c hc => hblock c (mem_children_of_element he hc))
    (fun c hc => hbody c (mem_children_of_element he hc))

theorem verdict_kind {b : BlockId} (hget : s.get? b = some block) (hkind : HasKindForm block)
    (hblock : ∀ c ∈ block.children, Verdict (s.MapFree c) (blockText c))
    {body : Except Fault String} (hbody : Verdict (s.BodyFree block) body) :
    Verdict (s.MapFree b) (kindText blockText (s.routineTextBy bodyText) block body) := by
  have hfree := mapFree_of_get? hget
  cases hkind with
  | wrapped wrap hcompanion hloop h =>
    rw [h]
    refine (hbody.map wrap).congr ?_
    simp [hfree, hcompanion, hloop]
  | empty hplain helements h =>
    rw [h]
    refine .ok "" (hfree.mpr ?_)
    simp [hplain, helements, BlockKind.companion, BodyFree]
  | mapLoop loop hkind h =>
    rw [h]
    exact .mapLoop _ fun hclean => (hfree.mp hclean).1 loop hkind
  | evaluation handler wrap hkind h =>
    rw [h]
    have hmem : handler ∈ block.children :=
      List.mem_append_left _ (by simp [hkind, BlockKind.companion])
    refine (hbody.bind fun body => (hblock handler hmem).map (wrap body)).congr ?_
    simp [hfree, hkind, BlockKind.companion, and_comm]

end Texts

/-- The block is nested less deep than the bound. -/
inductive NestsWithin (s : Store) : Nat → BlockId → Prop where
  | intro {depth : Nat} {b : BlockId} {block : Block} (hblock : s.get? b = some block)
      (hchildren : ∀ c ∈ block.children, NestsWithin s depth c) : NestsWithin s (depth + 1) b

theorem NestsWithin.mono {depth depth' : Nat} {b : BlockId} (h : s.NestsWithin depth b)
    (hle : depth ≤ depth') : s.NestsWithin depth' b := by
  induction h generalizing depth' with
  | intro hblock _ ih =>
    cases depth' with
    | zero => cases hle
    | succ depth' => exact .intro hblock fun c hc => ih c hc (Nat.le_of_succ_le_succ hle)

/-- Following what blocks hold never leads back. -/
theorem NestsWithin.not_cyclic {depth : Nat} {b : BlockId} (h : s.NestsWithin depth b) :
    ¬ Relation.TransGen s.Holds b b := by
  induction h with
  | intro hblock _ ih =>
    intro hcycle
    obtain ⟨c, hc, hback⟩ := Relation.TransGen.head'_iff.mp hcycle
    have hchild := hc
    rw [Holds, childrenOf_of_get? hblock] at hchild
    exact ih c hchild (.tail' hback hc)

/-- Of the blocks that a block holds, one at most leads to a given block. -/
theorem eq_of_reaches (hheld : ∀ b b' c, s.Holds b c → s.Holds b' c → b = b') {depth : Nat}
    {b c d e : BlockId} (hnests : s.NestsWithin depth b) (hc : s.Holds b c) (hd : s.Holds b d)
    (hce : Relation.ReflTransGen s.Holds c e) (hde : Relation.ReflTransGen s.Holds d e) :
    c = d := by
  have hunique : Relator.RightUnique (Function.swap s.Holds) := fun c b b' hb hb' =>
    hheld b b' c hb hb'
  have hback {x y : BlockId} (hx : s.Holds b x) (hy : s.Holds b y)
      (hxy : Relation.ReflTransGen s.Holds x y) : x = y := by
    rcases hxy.cases_tail with rfl | ⟨z, hxz, hz⟩
    · rfl
    · obtain rfl := hheld z b y hz hy
      exact absurd (Relation.TransGen.head' hx hxz) hnests.not_cyclic
  rcases Relation.ReflTransGen.total_of_right_unique hunique
    (Relation.reflTransGen_swap.mpr hce) (Relation.reflTransGen_swap.mpr hde) with h | h
  · exact (hback hd hc (Relation.reflTransGen_swap.mp h)).symm
  · exact hback hc hd (Relation.reflTransGen_swap.mp h)

theorem kind_settled_of_get? (hs : s.Settled) {b : BlockId} {block : Block}
    (h : s.get? b = some block) : block.kind.Settled := by
  have hfixed := hs.kind b _ (kindOf_of_get? h)
  cases hkind : block.kind <;> rw [hkind] at hfixed <;> exact hfixed

theorem verdict_within (hs : s.Settled) {depth : Nat} {b : BlockId} (h : s.NestsWithin depth b) :
    Verdict (s.MapFree b) (s.blockWithin depth b) ∧
      (s.IsRoutine b none → Verdict (s.MapFree b) (s.bodyWithin depth b)) := by
  induction h with
  | @intro depth b block hblock hchildren ih =>
    have hbody : Verdict (s.BodyFree block) (s.bodyTextBy (s.blockWithin depth)
        (s.routineTextBy (s.bodyWithin depth)) block) :=
      verdict_body (fun e he => hasForm_of_settled (hs.element e ⟨b, block, hblock, he⟩))
        (fun c hc => (ih c hc).1) (fun c hc => (ih c hc).2)
    have hok := (s.block_ok b block).mpr hblock
    constructor
    · rw [blockWithin, hok]
      exact verdict_kind hblock (hasKindForm (kind_settled_of_get? hs hblock))
        (fun c hc => (ih c hc).1) hbody
    · rintro hroutine
      rw [bodyWithin, hok]
      refine hbody.congr ?_
      obtain ⟨block', info, hok', hkind, _⟩ := hroutine.get?
      obtain rfl := Except.ok.inj (hok.symm.trans hok')
      simp [mapFree_of_get? hblock, hkind, BlockKind.companion]

section Stability

variable {blockText blockText' bodyText bodyText' : BlockId → Except Fault String} {block : Block}

theorem elementText_congr {e : Element} (h : s.HasForm e)
    (hblock : ∀ c, e.child? = some c → blockText c = blockText' c)
    (hbody : ∀ c, e.child? = some c → bodyText c = bodyText' c) :
    s.elementTextBy blockText (s.routineTextBy bodyText) e =
      s.elementTextBy blockText' (s.routineTextBy bodyText') e := by
  cases h with
  | fixed text _ h => rw [h, h]
  | inner c hchild h => rw [h, h, hblock c hchild]
  | handler c wrap hchild _ h => rw [h, h, hbody c hchild]

theorem bodyText_congr (helements : ∀ e ∈ block.elements, s.HasForm e)
    (hblock : ∀ c ∈ block.children, blockText c = blockText' c)
    (hbody : ∀ c ∈ block.children, bodyText c = bodyText' c) :
    s.bodyTextBy blockText (s.routineTextBy bodyText) block =
      s.bodyTextBy blockText' (s.routineTextBy bodyText') block := by
  have hmap : block.elements.mapM (s.elementTextBy blockText (s.routineTextBy bodyText)) =
      block.elements.mapM (s.elementTextBy blockText' (s.routineTextBy bodyText')) :=
    except_mapM_congr fun e he => elementText_congr (helements e he)
      (fun c hc => hblock c (mem_children_of_element he hc))
      (fun c hc => hbody c (mem_children_of_element he hc))
  rw [bodyTextBy, bodyTextBy, hmap]

theorem kindText_congr (hkind : HasKindForm block)
    (hblock : ∀ c ∈ block.children, blockText c = blockText' c) (routineText routineText' body) :
    kindText blockText routineText block body = kindText blockText' routineText' block body := by
  cases hkind with
  | wrapped wrap _ _ h => rw [h, h]
  | empty _ _ h => rw [h, h]
  | mapLoop loop _ h => rw [h, h]
  | evaluation handler wrap hkind h =>
    have hmem : handler ∈ block.children :=
      List.mem_append_left _ (by simp [hkind, BlockKind.companion])
    rw [h, h, hblock handler hmem]

end Stability

/-- A deeper bound on the nesting gives the same texts. -/
theorem within_stable (hs : s.Settled) {depth : Nat} {b : BlockId} (h : s.NestsWithin depth b)
    (n : Nat) :
    s.blockWithin (depth + n) b = s.blockWithin depth b ∧
      s.bodyWithin (depth + n) b = s.bodyWithin depth b := by
  induction h with
  | @intro depth b block hblock hchildren ih =>
    have hbody := bodyText_congr
      (fun e he => hasForm_of_settled (hs.element e ⟨b, block, hblock, he⟩))
      (fun c hc => (ih c hc).1) (fun c hc => (ih c hc).2)
    have hok := (s.block_ok b block).mpr hblock
    have hdepth : depth + 1 + n = depth + n + 1 := by omega
    rw [hdepth]
    constructor
    · rw [blockWithin, blockWithin, hok]
      change kindText _ _ block _ = kindText _ _ block _
      rw [hbody]
      exact kindText_congr (hasKindForm (kind_settled_of_get? hs hblock))
        (fun c hc => (ih c hc).1) _ _ _
    · rw [bodyWithin, bodyWithin, hok]
      exact hbody

end Store

namespace Scopes.Linked

variable {s : Scopes}

theorem mapFree_file (h : s.Linked) (houter : s.outer = []) :
    s.store.MapFree s.file ↔
      ∀ b block, s.store.get? b = some block → ∀ loop, block.kind ≠ .mapLoop loop := by
  constructor
  · intro hfree b block hblock loop hkind
    have hreachable := h.reachable houter b (Store.lt_size_of_get? hblock)
    rw [h.file] at hfree
    apply hfree b hreachable loop
    rw [Store.kindOf_of_get? hblock, (block.kind.fixed_eq_mapLoop loop).mpr hkind]
  · intro hloops b _ loop hkind
    obtain ⟨block, hblock, hfixed⟩ := Option.map_eq_some_iff.mp hkind
    exact hloops b block hblock loop ((block.kind.fixed_eq_mapLoop loop).mp hfixed)

/-- Blocks nest at most as deep as there are blocks. -/
theorem nestsWithin (h : s.Linked) (b : Nat) (hb : b < s.store.size) :
    s.store.NestsWithin (s.store.size + 1 - b) b := by
  induction hn : s.store.size - b using Nat.strongRecOn generalizing b with
  | ind n ih =>
    obtain ⟨block, hblock⟩ := Store.exists_get? hb
    have hdepth : s.store.size + 1 - b = s.store.size - b + 1 := by omega
    rw [hdepth]
    refine .intro hblock fun (c : Nat) hc => ?_
    rw [← Store.childrenOf_of_get? hblock] at hc
    have hlt := h.child_lt_size hc
    rcases h.downward c b (h.mem_childrenOf.mp hc) with hbelow | ⟨_, hbare⟩
    · exact (ih (s.store.size - c) (by omega) c hlt rfl).mono (by omega)
    · obtain ⟨handler, hhandler⟩ := Store.exists_get? hlt
      have hnone : s.store.NestsWithin 1 c := by
        refine .intro hhandler fun d hd => ?_
        rw [← Store.childrenOf_of_get? hhandler, h.mem_childrenOf] at hd
        exact absurd hd (hbare d)
      exact hnone.mono (by omega)

end Scopes.Linked

/-- A compiled script has a text unless it loops over a map, and then its rendering fails as an
unsupported construct. Rendering comes to an end by itself: a deeper bound on the nesting of blocks
changes nothing. -/
theorem compile_renders_unless_map_loop {settings : Settings} {script : Script}
    {program : Program} {log : List LogEntry}
    (h : compile settings script = (.ok program, log)) :
    ((∃ text, program.render = .ok text) ↔
        ∀ b block, program.store.get? b = some block → ∀ loop, block.kind ≠ .mapLoop loop) ∧
      (∀ fault, program.render = .error fault → fault.cls = .unsupported) ∧
      ∀ depth, program.store.depthBound ≤ depth →
        program.store.blockWithin depth program.root = program.render := by
  obtain ⟨deps, lines, final, _, hruns, houter, rfl, _⟩ := compile_ok h
  obtain ⟨hlinked, hsettled⟩ := Scopes.settled_of_runs hruns
  have hnests : final.store.NestsWithin final.store.depthBound final.file := by
    rw [hlinked.file]
    exact hlinked.nestsWithin 0 hlinked.zero_lt_size
  have hverdict := (Store.verdict_within hsettled hnests).1
  refine ⟨hverdict.ok_iff.trans (hlinked.mapFree_file houter),
    fun fault herror => hverdict.cls_of_error herror, ?_⟩
  intro depth hdepth
  obtain ⟨n, rfl⟩ := Nat.exists_eq_add_of_le hdepth
  exact (Store.within_stable hsettled hnests n).1

theorem compile_renders_unless_map_loop_entries :
    ∃ program log fault,
      compile {} (.ofSource "a" "Map<Int> m = \x7ba: 1\x7d\nfor v in m \x7b\n\x7d") =
        (.ok program, log) ∧
      program.render = .error fault ∧ fault.cls = .unsupported := by
  obtain ⟨program, log, h, hfails⟩ := exists_of_compile_any {}
    (.ofSource "a" "Map<Int> m = \x7ba: 1\x7d\nfor v in m \x7b\n\x7d")
    (fun program => !program.render.isOk) (by decide +kernel)
  cases hrender : program.render with
  | ok text =>
    rw [hrender] at hfails
    cases hfails
  | error fault =>
    exact ⟨program, log, fault, h, hrender, (compile_renders_unless_map_loop h).2.1 fault hrender⟩

end LineScript
