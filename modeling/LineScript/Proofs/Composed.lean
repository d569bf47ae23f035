import LineScript.Proofs.LaidOut

/-!
# Texts of blocks are composed

The text of a block consists of the sentences of its elements, one after the other, and of other
blocks, with a heading in front of the brace that opens each block. A property of texts that
sentences have, and that these ways of putting texts together keep, holds of every text of a block.
-/
namespace LineScript

open Text Layout

namespace Layout

/-- What stands in front of a brace: nothing, or a text without a blank at its start whose brackets
close within it. -/
structure Heading (head : String) : Prop where
  paired : Paired true head
  solid : head = "" ∨ startsSolid head = true

/-- A property of texts that holds of sentences, and of texts composed of texts that have it. The
tests of branches have the first property. -/
structure Composes (T Whole : String → Prop) : Prop where
  spelled : ∀ {text}, Spelled text → Whole text
  append : ∀ {t u}, Whole t → Whole u → Whole (t ++ u)
  block : ∀ {head body}, Heading head → Whole body → ∀ tail ∈ ["", ";"],
    Whole (head ++ inBraces body ++ (tail ++ "\n"))
  branch : ∀ {branch : Branch} {test body}, T test → Whole body →
    Whole (branch.keyword ++ " (" ++ test ++ ") " ++ inBraces body ++ "\n")

end Layout

/-- The text in front of the braces of a routine. -/
theorem Routine.exists_heading (routine : Routine) (h : ∀ name ∈ routine.name, IsName name) :
    ∃ head, Heading head ∧ ∀ body, routine.definition body = head ++ inBraces body := by
  unfold Routine.definition
  have hsub : Paired true "sub " := fun _ => rfl
  cases hname : routine.name with
  | none => exact ⟨"sub ", ⟨hsub, Or.inr rfl⟩, fun _ => rfl⟩
  | some name =>
    have hspace : Paired true " " := fun _ => rfl
    exact ⟨_, ⟨(hsub.append (Paired.name true (h name hname))).append hspace,
      Or.inr (startsSolid_append (startsSolid_append rfl _) _)⟩, fun _ => rfl⟩

theorem heading_slot (signal : Signal) : Heading ("$SIG\x7b" ++ signal.key ++ "\x7d = ") := by
  cases signal <;> exact ⟨fun _ => rfl, Or.inr rfl⟩

/-- A sentence that does no more than name the handler of a signal. -/
theorem sentence_slot (signal : Signal) {name : String} (h : IsName name) :
    Sentence ("$SIG\x7b" ++ signal.key ++ "\x7d = " ++ "\\&" ++ name ++ ";\n") := by
  have hreference : Paired true "\\&" := fun _ => rfl
  have hslot := ((heading_slot signal).paired.append hreference).append (Paired.name true h)
  refine .intro ?_ hslot ";" rfl fun _ => rfl
  simp only [String.append_assoc]
  exact startsSolid_append rfl _

section Parts

variable {T Whole : String → Prop} (hW : Composes T Whole)
  {blockText routineText bodyText : BlockId → Except Fault String} {id : BlockId} {t : String}

include hW

theorem Layout.Composes.join {texts : List String} (h : ∀ text ∈ texts, Whole text) :
    Whole (String.join texts) := by
  induction texts with
  | nil => exact hW.spelled .empty
  | cons text rest ih =>
    rw [List.forall_mem_cons] at h
    rw [String.join_cons]
    exact hW.append h.1 (ih h.2)

theorem Condition.whole_text {condition : Condition} {body : String}
    (htest : ∀ test ∈ condition.test, T test) (hbody : Whole body)
    (ht : (match condition.branch, condition.test with
      | .otherwise, _ | _, none => return "else " ++ inBraces body ++ "\n"
      | branch, some test =>
        return branch.keyword ++ " (" ++ test ++ ") " ++ inBraces body ++ "\n" :
        Except Fault String) = .ok t) : Whole t := by
  have helse : Heading "else " := ⟨fun _ => rfl, Or.inr rfl⟩
  split at ht
  · obtain rfl := (except_pure_ok _ _).mp ht
    exact hW.block helse hbody "" (by simp)
  · obtain rfl := (except_pure_ok _ _).mp ht
    exact hW.block helse hbody "" (by simp)
  · rename_i _ test htested _
    obtain rfl := (except_pure_ok _ _).mp ht
    exact hW.branch (htest test htested) hbody

theorem ArrayLoop.whole_text {loop : ArrayLoop} (h : (BlockKind.arrayLoop loop).Spelled T)
    {counter length element body : String}
    (hcounter : loop.counter.declaration routineText = .ok counter)
    (hlength : loop.length.declaration routineText = .ok length)
    (helement : loop.element.declaration routineText = .ok element) (hbody : Whole body) :
    Whole (inBraces (counter ++ length ++ ("while (" ++ ("$" ++ loop.counter.name.getD "" ++
      "->valueOf() < $" ++ loop.length.name.getD "") ++ ") " ++ inBraces (element ++ body ++
      ("$" ++ loop.counter.name.getD "" ++ "->add(1);\n")) ++ ";\n")) ++ ";\n") := by
  have hstart := hW.append (hW.spelled (.sentence (h.1.sentence hcounter)))
    (hW.spelled (.sentence (h.2.1.sentence hlength)))
  have hitem := hW.spelled (.sentence (h.2.2.sentence helement))
  obtain ⟨_, index, hindex, hindexName⟩ := h.1
  obtain ⟨_, limit, hlimit, hlimitName⟩ := h.2.1
  rw [hindex, hlimit, Option.getD_some, Option.getD_some]
  have hsigil : Paired true "$" := fun _ => rfl
  have hcounted : Paired true ("$" ++ index) := hsigil.append (Paired.name true hindexName)
  have hwhile : Passes true [] "while (" [')'] := fun _ => rfl
  have hless : Paired true "->valueOf() < $" := fun _ => rfl
  have hclosing : Passes true [')'] ") " [] := fun _ => rfl
  have htest : Paired true _ := (hcounted.append hless).append (Paired.name true hlimitName)
  have hhead : Heading _ := ⟨(hwhile.append (htest.frame _)).append hclosing,
    Or.inr (startsSolid_append (startsSolid_append rfl _) _)⟩
  have hstep : Whole ("$" ++ index ++ "->add(1);\n") := hW.spelled (.sentence
    (.intro (startsSolid_append rfl _) hcounted "->add(1);" rfl fun _ => rfl))
  have hrepeated := hW.block hhead (hW.append (hW.append hitem hbody) hstep) ";" (by simp)
  have hplain : Heading "" := ⟨fun _ => rfl, Or.inl rfl⟩
  have hloop := hW.block hplain (hW.append hstart hrepeated) ";" (by simp)
  rwa [String.empty_append] at hloop

end Parts

namespace Store

variable {s : Store} {T Whole : String → Prop}
  {blockText routineText bodyText : BlockId → Except Fault String} {id : BlockId} {block : Block}
  {t : String}

/-- A routine in place is a heading and a text in braces. -/
def Braced (Whole : String → Prop) (text : String) : Prop :=
  ∃ head body, Heading head ∧ Whole body ∧ text = head ++ inBraces body

section Kinds

variable (hkinds : ∀ id kind, s.kindOf id = some kind → kind.Spelled T)

include hkinds

theorem spelled_kind_of_block (hblock : s.block id = .ok block) : block.kind.Spelled T := by
  have hfixed := hkinds id _ (kindOf_of_get? ((s.block_ok id block).mp hblock))
  cases hkind : block.kind <;> rw [hkind] at hfixed <;> exact hfixed

theorem braced_routineText (hbody : ∀ id t, bodyText id = .ok t → Whole t)
    (ht : s.routineTextBy bodyText id = .ok t) : Braced Whole t := by
  obtain ⟨block, hblock, ht⟩ := (except_bind_ok _ _ _).mp ht
  have hkind := spelled_kind_of_block hkinds hblock
  split at ht
  · rename_i info hinfo
    obtain ⟨body, hbodyText, ht⟩ := (except_bind_ok _ _ _).mp ht
    obtain rfl := (except_pure_ok _ _).mp ht
    rw [hinfo] at hkind
    obtain ⟨head, hhead, hdefinition⟩ := info.exists_heading hkind
    exact ⟨head, body, hhead, hbody id body hbodyText, hdefinition body⟩
  · cases ht

variable (hW : Composes T Whole)

include hW

theorem whole_handlerText (hroutineText : ∀ id t, routineText id = .ok t → Braced Whole t)
    {signal : Signal} (ht : s.handlerText routineText signal id = .ok t) : Whole t := by
  obtain ⟨block, hblock, ht⟩ := (except_bind_ok _ _ _).mp ht
  have hwritten (ht : (do
      let text ← routineText id
      pure ("$SIG\x7b" ++ signal.key ++ "\x7d = " ++ text ++ ";\n")) = Except.ok t) : Whole t := by
    obtain ⟨text, htext, ht⟩ := (except_bind_ok _ _ _).mp ht
    obtain rfl := (except_pure_ok _ _).mp ht
    obtain ⟨head, body, hhead, hbody, rfl⟩ := hroutineText id text htext
    have hslot := heading_slot signal
    have hsolid := startsSolid_append (hslot.solid.resolve_left (by cases signal <;> decide)) head
    rw [← String.append_assoc]
    exact hW.block ⟨hslot.paired.append hhead.paired, Or.inr hsolid⟩ hbody ";" (by simp)
  have hkind := spelled_kind_of_block hkinds hblock
  split at ht
  · rename_i info hinfo
    rw [hinfo] at hkind
    cases hname : info.name with
    | none =>
      rw [hname] at ht
      exact hwritten ht
    | some name =>
      rw [hname] at ht
      obtain rfl := (except_pure_ok _ _).mp ht
      exact hW.spelled (.sentence (sentence_slot signal (hkind name hname)))
  · exact hwritten ht

theorem whole_kindText (hblockText : ∀ id t, blockText id = .ok t → Whole t)
    (hblock : s.block id = .ok block) {body : Except Fault String}
    (hbody : ∀ t, body = .ok t → Whole t)
    (ht : kindText blockText routineText block body = .ok t) : Whole t := by
  have hkind := spelled_kind_of_block hkinds hblock
  unfold kindText at ht
  cases hcase : block.kind with
  | file info =>
    rw [hcase] at ht
    exact hbody t ht
  | plain =>
    rw [hcase] at ht
    simp only at ht
    split_ifs at ht
    · obtain rfl := (except_pure_ok _ _).mp ht
      exact hW.spelled .empty
    · obtain ⟨inner, hinner, ht⟩ := (except_bind_ok _ _ _).mp ht
      obtain rfl := (except_pure_ok _ _).mp ht
      have hplain : Heading "" := ⟨fun _ => rfl, Or.inl rfl⟩
      have hblock := hW.block hplain (hbody inner hinner) ";" (by simp)
      rwa [String.empty_append] at hblock
  | routine info =>
    rw [hcase] at ht hkind
    obtain ⟨inner, hinner, ht⟩ := (except_bind_ok _ _ _).mp ht
    obtain rfl := (except_pure_ok _ _).mp ht
    obtain ⟨head, hhead, hdefinition⟩ := info.exists_heading hkind
    rw [hdefinition]
    exact hW.block hhead (hbody inner hinner) ";" (by simp)
  | condition info =>
    rw [hcase] at ht hkind
    obtain ⟨inner, hinner, ht⟩ := (except_bind_ok _ _ _).mp ht
    exact Condition.whole_text hW hkind (hbody inner hinner) ht
  | arrayLoop loop =>
    rw [hcase] at ht hkind
    obtain ⟨counter, hcounter, ht⟩ := (except_bind_ok _ _ _).mp ht
    obtain ⟨length, hlength, ht⟩ := (except_bind_ok _ _ _).mp ht
    obtain ⟨element, helement, ht⟩ := (except_bind_ok _ _ _).mp ht
    obtain ⟨inner, hinner, ht⟩ := (except_bind_ok _ _ _).mp ht
    obtain rfl := (except_pure_ok _ _).mp ht
    exact ArrayLoop.whole_text hW hkind hcounter hlength helement (hbody inner hinner)
  | mapLoop loop =>
    rw [hcase] at ht
    cases ht
  | evaluation handler =>
    rw [hcase] at ht
    obtain ⟨inner, hinner, ht⟩ := (except_bind_ok _ _ _).mp ht
    obtain ⟨handled, hhandled, ht⟩ := (except_bind_ok _ _ _).mp ht
    obtain rfl := (except_pure_ok _ _).mp ht
    have heval : Heading "eval " := ⟨fun _ => rfl, Or.inr rfl⟩
    exact hW.append (hW.block heval (hbody inner hinner) ";" (by simp))
      (hblockText handler handled hhandled)

variable (helements : ∀ e, s.Stores e → e.child? = none → ∀ blockText routineText t,
  s.elementTextBy blockText routineText e = .ok t → Whole t)

include helements

theorem whole_bodyText (hblockText : ∀ id t, blockText id = .ok t → Whole t)
    (hroutineText : ∀ id t, routineText id = .ok t → Braced Whole t)
    (hstored : ∀ e ∈ block.elements, s.Stores e)
    (ht : s.bodyTextBy blockText routineText block = .ok t) : Whole t := by
  obtain ⟨texts, htexts, ht⟩ := (except_bind_ok _ _ _).mp ht
  obtain rfl := (except_pure_ok _ _).mp ht
  refine hW.join fun text htext => ?_
  obtain ⟨e, he, htext⟩ := exists_of_mem_mapM htexts htext
  have hstored := hstored e he
  cases e with
  | text _ | value _ | method _ => exact helements _ hstored rfl _ _ _ htext
  | block child => exact hblockText child text htext
  | statement content =>
    cases content with
    | signal signal handler => exact whole_handlerText hkinds hW hroutineText htext
    | dependency _ | binding _ | giveBack _ | print _ | assign _ | exit _ | package _ =>
      exact helements _ hstored rfl _ _ _ htext

/-- The text of a block nested at any depth, by induction on the depth. -/
theorem whole_within (depth : Nat) :
    (∀ id t, s.bodyWithin depth id = .ok t → Whole t) ∧
      ∀ id t, s.blockWithin depth id = .ok t → Whole t := by
  induction depth with
  | zero => exact ⟨fun _ _ => nofun, fun _ _ => nofun⟩
  | succ depth ih =>
    have hroutine (id : BlockId) (t : String)
        (ht : s.routineTextBy (s.bodyWithin depth) id = .ok t) : Braced Whole t :=
      braced_routineText hkinds ih.1 ht
    have hstored (id : BlockId) (block : Block) (hblock : s.block id = .ok block)
        (e : Element) (he : e ∈ block.elements) : s.Stores e :=
      ⟨id, block, (s.block_ok id block).mp hblock, he⟩
    constructor
    · intro id t ht
      obtain ⟨block, hblock, ht⟩ := (except_bind_ok _ _ _).mp ht
      exact whole_bodyText hkinds hW helements ih.2 hroutine (hstored id block hblock) ht
    · intro id t ht
      obtain ⟨block, hblock, ht⟩ := (except_bind_ok _ _ _).mp ht
      exact whole_kindText hkinds hW ih.2 hblock (fun body =>
        whole_bodyText hkinds hW helements ih.2 hroutine (hstored id block hblock)) ht

end Kinds

end Store

end LineScript
