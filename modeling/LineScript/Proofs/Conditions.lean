import LineScript.Proofs.Failure
import LineScript.Proofs.LaidOut

/-!
# Texts of branch tests

A test that is not a variable is written to the program as the same value would be handed back,
but for its first semicolon. Nothing else is lost: the text has no line feed and no blanks at its
ends, since it starts and ends with a character that belongs to it.
-/
namespace LineScript

open Text

namespace Text

/-- A character that is neither a blank nor a semicolon. -/
def isSolid (c : Char) : Bool :=
  !isBlank c && c != ';'

def Starts (t : String) : Prop :=
  ∃ c rest, t.toList = c :: rest ∧ isSolid c = true

def Ends (t : String) : Prop :=
  ∃ front c, t.toList = front ++ [c] ∧ isSolid c = true

/-- The text starts and ends with a solid character. -/
structure Solid (t : String) : Prop where
  starts : Starts t
  ends : Ends t

variable {t u : String}

theorem isSolid_iff {c : Char} : isSolid c = true ↔ isBlank c = false ∧ c ≠ ';' := by
  rw [isSolid, Bool.and_eq_true, Bool.not_eq_true', bne_iff_ne]

theorem isSolid_of_continuesName {c : Char} (h : continuesName c = true) : isSolid c = true := by
  refine isSolid_iff.mpr ⟨isBlank_of_continuesName h, ?_⟩
  rintro rfl
  exact absurd h (by decide)

theorem Starts.append (h : Starts t) (u : String) : Starts (t ++ u) := by
  obtain ⟨c, rest, heq, hc⟩ := h
  exact ⟨c, rest ++ u.toList, by rw [String.toList_append, heq, List.cons_append], hc⟩

theorem Ends.append (t : String) (h : Ends u) : Ends (t ++ u) := by
  obtain ⟨front, c, heq, hc⟩ := h
  exact ⟨t.toList ++ front, c, by rw [String.toList_append, heq, List.append_assoc], hc⟩

theorem Starts.name (h : IsName t) : Starts t := by
  obtain ⟨c, rest, heq, hc⟩ := Line.exists_cons_of_isName h
  exact ⟨c, rest, heq, isSolid_of_continuesName (continuesName_of_startsName hc)⟩

namespace Solid

theorem of_forall (hne : t.toList ≠ []) (h : ∀ c ∈ t.toList, isSolid c = true) : Solid t where
  starts := by
    obtain ⟨c, rest, heq⟩ := List.exists_cons_of_ne_nil hne
    exact ⟨c, rest, heq, h c (heq ▸ List.mem_cons_self)⟩
  ends :=
    ⟨t.toList.dropLast, t.toList.getLast hne, (List.dropLast_append_getLast hne).symm,
      h _ (List.getLast_mem hne)⟩

theorem number (h : Line.IsNumber t.toList) : Solid t := by
  have hne : t.toList ≠ [] := by
    intro hnil
    rw [hnil] at h
    cases h with
    | unsigned h =>
      obtain ⟨c, rest, heq, _⟩ := h.head_isDigit
      cases heq
  refine of_forall hne fun c hc => ?_
  rcases Line.mem_isNumber h c hc with hc | rfl | rfl
  · exact isSolid_of_continuesName hc
  · rfl
  · rfl

theorem erase (h : Solid t) : Solid (String.ofList (t.toList.erase ';')) where
  starts := by
    obtain ⟨c, rest, heq, hc⟩ := h.starts
    refine ⟨c, rest.erase ';', ?_, hc⟩
    rw [String.toList_ofList, heq, List.erase_cons_tail (by simp [(isSolid_iff.mp hc).2])]
  ends := by
    obtain ⟨front, c, heq, hc⟩ := h.ends
    have hne : ';' ∉ [c] := fun hmem =>
      (isSolid_iff.mp hc).2 (List.mem_singleton.mp hmem).symm
    unfold Ends
    rw [String.toList_ofList, heq, List.erase_append]
    split_ifs
    · exact ⟨front.erase ';', c, rfl, hc⟩
    · exact ⟨front, c, by rw [List.erase_of_not_mem hne], hc⟩

theorem trimBoth_eq (h : Solid t) : trimBoth t.toList = t.toList := by
  obtain ⟨c, rest, hstarts, hc⟩ := h.starts
  obtain ⟨front, d, hends, hd⟩ := h.ends
  have hfirst := (isSolid_iff.mp hc).1
  rw [hstarts, trimBoth_cons hfirst, ← trimRight_cons hfirst, ← hstarts, hends, trimRight_snoc,
    (isSolid_iff.mp hd).1]
  rfl

end Solid

end Text

/-- A test without line feeds whose ends are solid loses nothing but a semicolon. -/
theorem Test.text_of_solid {t : String} (h : Solid t) (hfeed : '\n' ∉ t.toList) :
    (Test.raw t).text = String.ofList (t.toList.erase ';') := by
  have hnot : '\n' ∉ t.toList.erase ';' := fun hmem => hfeed (List.mem_of_mem_erase hmem)
  have htrim := h.erase.trimBoth_eq
  rw [String.toList_ofList] at htrim
  rw [Test.text, List.erase_of_not_mem hnot, htrim]

theorem Condition.make_some {branch : Branch} (h : branch ≠ .otherwise) (test : Test) :
    Condition.make branch (some test) = .ok ⟨branch, some test.text⟩ := by
  cases branch with
  | otherwise => exact absurd rfl h
  | ifTrue | elseIf => rfl

section Expressions

variable {routineText : BlockId → Except Fault String} {t : String}

theorem Text.Starts.solid_applied {callee : String} (h : Starts callee) (arguments : List String) :
    Solid (applied callee arguments) :=
  ⟨((h.append _).append _).append _, .append _ ⟨[], ')', rfl, rfl⟩⟩

theorem Literal.solid_native {ok : Char → Prop} {l : Literal} (h : l.WellFormed ok) :
    Solid l.native := by
  cases l with
  | text content =>
    rw [native]
    constructor
    · exact ⟨'"', _, Perl.toList_quote content, rfl⟩
    · exact ⟨'"' :: Perl.quoteBody content.toList, '"', Perl.toList_quote content, rfl⟩
  | number spelling => exact .number h
  | truth value =>
    cases value <;> exact .of_forall (by decide) (List.all_eq_true.mp (by decide))
  | list items =>
    have hopening : Starts "[" := ⟨'[', [], rfl, rfl⟩
    exact ⟨(hopening.append _).append _, .append _ ⟨[], ']', rfl, rfl⟩⟩
  | object fields =>
    have hopening : Starts "\x7b" := ⟨'\x7b', [], rfl, rfl⟩
    exact ⟨(hopening.append _).append _, .append _ ⟨[], '\x7d', rfl, rfl⟩⟩
  | undefined => exact .of_forall (by decide) (List.all_eq_true.mp (by decide))

theorem MethodCall.solid_expression :
    ∀ (call : MethodCall) {t : String}, call.expression routineText = .ok t → Solid t
  | .on receiver method arguments, t, h => by
    rw [MethodCall.expression] at h
    obtain ⟨texts, _, h⟩ := (except_bind_ok _ _ _).mp h
    obtain rfl := (except_pure_ok _ _).mp h
    have hsigil : Starts "$" := ⟨'$', [], rfl, rfl⟩
    exact (((hsigil.append _).append _).append _).solid_applied texts
  | .after previous method arguments, t, h => by
    rw [MethodCall.expression] at h
    obtain ⟨receiver, hreceiver, h⟩ := (except_bind_ok _ _ _).mp h
    obtain ⟨texts, _, h⟩ := (except_bind_ok _ _ _).mp h
    obtain rfl := (except_pure_ok _ _).mp h
    have hprevious := (MethodCall.solid_expression previous hreceiver).starts
    exact ((hprevious.append _).append _).solid_applied texts

theorem RoutineCall.solid_expression {call : RoutineCall} {name : String}
    (hname : call.name = some name) (hisName : IsName name)
    (h : call.expression routineText = .ok t) : Solid t := by
  obtain ⟨routine, callName, returned, arguments⟩ := call
  obtain rfl : callName = some name := hname
  rw [RoutineCall.expression] at h
  obtain ⟨texts, _, h⟩ := (except_bind_ok _ _ _).mp h
  obtain rfl := (except_pure_ok _ _).mp h
  exact (Starts.name hisName).solid_applied texts

theorem Scopes.Named.solid_inlineText {s : Scopes} (hnamed : s.Named) {ok : Char → Prop}
    {e : Expression} (he : e.WellFormed ok) (hvariable : ∀ name, e ≠ .variable name)
    (h : s.inlineText e = .ok t) : Solid t := by
  cases e with
  | literal content =>
    rw [inlineText] at h
    obtain rfl := Except.ok.inj h
    exact Literal.solid_native he
  | arguments =>
    rw [inlineText] at h
    obtain rfl := Except.ok.inj h
    exact ⟨⟨'s', _, rfl, rfl⟩, .append _ ⟨[], ')', rfl, rfl⟩⟩
  | «variable» name => exact absurd rfl (hvariable name)
  | routine name arguments =>
    rw [inlineText] at h
    obtain ⟨id, hid, h⟩ := (except_bind_ok _ _ _).mp h
    obtain ⟨bound, _, h⟩ := (except_bind_ok _ _ _).mp h
    obtain ⟨call, hcall, h⟩ := (except_bind_ok _ _ _).mp h
    obtain ⟨hname, _⟩ := Store.routineCall_ok (hnamed.isRoutine_of_require hid) hcall
    exact RoutineCall.solid_expression hname he.1 h
  | method receiver chain =>
    rw [inlineText] at h
    obtain ⟨call, _, h⟩ := (except_bind_ok _ _ _).mp h
    exact call.solid_expression h

end Expressions

namespace Scopes

variable {s t : Scopes}

theorem named_of_after {settings : Settings} {script : Script} {n : Nat}
    (h : after settings script n = some s) : s.Named := by
  obtain ⟨deps, constructs, hruns⟩ := runs_of_after h
  exact hruns.linked_named.2

/-- What is read of a value that is not a variable is its text, wherever it stands. -/
theorem test_eq_map {e : Expression} (he : ∀ name, e ≠ .variable name) :
    s.test (some e) = (s.inlineText e).map fun text => some (.raw text) := by
  cases e with
  | «variable» name => exact absurd rfl (he name)
  | literal _ | arguments | routine _ _ | method _ _ => rfl

theorem returnedValue_eq_map {e : Expression} (he : ∀ name, e ≠ .variable name) :
    s.returnedValue e = (s.inlineText e).map .raw := by
  cases e with
  | «variable» name => exact absurd rfl (he name)
  | literal _ | arguments | routine _ _ | method _ _ => rfl

/-- A branch that may stand here opens a scope. -/
theorem succeeds_condition {branch : Branch} {e : Option Expression} {test : Option Test}
    {condition : Condition} (htest : s.test e = .ok test)
    (hfollows : branch ≠ .ifTrue → s.followsBranch = .ok true)
    (hcondition : Condition.make branch test = .ok condition) :
    ∃ t, Succeeds (Session.apply (.condition branch e)) s () t := by
  let grown := s.store.extend [Block.ofKind (.condition condition)] s.store.fresh
  have hnew : Succeeds (Edit.newCondition branch test) s.store s.store.size grown := by
    unfold Edit.newCondition Edit.alloc
    rw [Edit.succeeds_ofExcept_bind]
    refine ⟨condition, hcondition, ?_⟩
    rw [succeeds_get_bind, succeeds_set_bind, succeeds_pure]
    exact ⟨rfl, by simp [grown, Store.extend]⟩
  obtain ⟨path, t, hscope⟩ : ∃ path t,
      Succeeds (Session.openScope s.store.size .block) { s with store := grown } path t :=
    ⟨_, _, rfl⟩
  have henter : Succeeds (Session.enter s.store.size) { s with store := grown } path t := by
    unfold Session.enter
    rw [succeeds_get_bind, Session.succeeds_ofExcept_bind]
    refine ⟨Block.ofKind (.condition condition),
      (Store.block_ok _ _ _).mpr (s.store.get?_extend_single _ _), ?_⟩
    exact hscope
  refine ⟨t, ?_⟩
  have hopen : Succeeds (do
      let block ← Session.edit (Edit.newCondition branch test)
      let _ ← Session.enter block) s () t := by
    rw [Session.succeeds_edit_bind]
    refine ⟨s.store.size, grown, hnew, ?_⟩
    rw [succeeds_bind]
    exact ⟨path, t, henter, (succeeds_pure _ _ _ _).mpr ⟨rfl, rfl⟩⟩
  change Succeeds (Session.applyCondition branch e) s () t
  unfold Session.applyCondition
  rw [Session.look_bind]
  refine ⟨test, htest, ?_⟩
  split_ifs with hbranch
  · rw [Session.look_bind]
    exact ⟨true, hfollows hbranch, hopen⟩
  · exact hopen

/-- A branch whose test has a fault is refused with it. -/
theorem fails_condition {branch : Branch} {e : Option Expression} {fault : Fault}
    (htest : s.test e = .error fault) : Fails (Session.apply (.condition branch e)) s fault := by
  change Fails (Session.applyCondition branch e) s fault
  unfold Session.applyCondition Session.look
  rw [fails_bind, fails_get_bind, Session.fails_ofExcept]
  exact Or.inl htest

theorem Named.test_text (hnamed : s.Named) {line text : String} {branch : Branch} {e : Expression}
    (hline : '\n' ∉ line.toList)
    (hclassify : Line.classify line = .ok (.condition branch (some e)))
    (he : ∀ name, e ≠ .variable name) (htext : s.inlineText e = .ok text) :
    (Test.raw text).text = String.ofList (text.toList.erase ';') := by
  have hwellFormed : e.WellFormed fun c => fits true c = true := by
    refine Line.wellFormed_of_classify hclassify (fun c hc => ?_) e rfl
    have hne : c ≠ '\n' := fun heq => hline (heq ▸ hc)
    simp [fits, hne]
  have hfeed : '\n' ∉ text.toList := fun hmem =>
    absurd ((hnamed.paired_inlineText hwellFormed htext).fits _ hmem) (by decide)
  exact Test.text_of_solid (hnamed.solid_inlineText hwellFormed he htext) hfeed

end Scopes

/-- The branch and the call that it tests. -/
def Construct.testedCall? : Construct → Option (Branch × String × String)
  | .condition branch (some (.method receiver chain)) => some (branch, receiver, chain)
  | _ => none

theorem Line.classify_of_testedCall? {line receiver chain : String} {branch : Branch}
    (h : (classify line).toOption.bind Construct.testedCall? = some (branch, receiver, chain)) :
    classify line = .ok (.condition branch (some (.method receiver chain))) := by
  obtain ⟨c, hc, hcall⟩ := Option.bind_eq_some_iff.mp h
  unfold Construct.testedCall? at hcall
  split at hcall
  · simp only [Option.some.injEq, Prod.mk.injEq] at hcall
    obtain ⟨rfl, rfl, rfl⟩ := hcall
    exact except_toOption_eq_some hc
  · cases hcall

/-- The test of a branch that is not a variable is the text that the same value has in a return,
without its first semicolon, its first line feed and the blanks around it. After the lines of a
script only the semicolon matters: the two texts are the same if and only if there is none. A
branch is refused if the value cannot be handed back. -/
theorem condition_test_of_line {s : Scopes} {line : String} {branch : Branch} {e : Expression}
    (hline : '\n' ∉ line.toList)
    (hclassify : Line.classify line = .ok (.condition branch (some e)))
    (hbranch : branch ≠ .otherwise) (he : ∀ name, e ≠ .variable name) :
    (∀ fault, s.inlineText e = .error fault →
      s.returnedValue e = .error fault ∧
        Fails (Session.apply (.condition branch (some e))) s fault) ∧
    ∀ text, s.inlineText e = .ok text →
      (∃ value, s.returnedValue e = .ok value ∧
        ∀ routineText, (Return.ofValues [value]).text routineText =
          .ok ("return " ++ text ++ ";\n")) ∧
      (branch = .ifTrue ∨ s.followsBranch = .ok true →
        ∃ t, Succeeds (Session.apply (.condition branch (some e))) s () t) ∧
      ∀ t, Succeeds (Session.apply (.condition branch (some e))) s () t →
        ∃ block test, t.store.get? t.current.block = some block ∧
          block.kind = .condition ⟨branch, some test⟩ ∧
          (∀ later : Block, later.kind = block.kind → ∀ blockText routineText body,
            Store.kindText blockText routineText later (.ok body) =
              .ok (branch.keyword ++ " (" ++ test ++ ") " ++ inBraces body ++ "\n")) ∧
          test = String.ofList (trimBoth ((text.toList.erase ';').erase '\n')) ∧
          ∀ settings script n, Scopes.after settings script n = some s →
            test = String.ofList (text.toList.erase ';') ∧ (test = text ↔ ';' ∉ text.toList) := by
  constructor
  · intro fault hfault
    refine ⟨by rw [Scopes.returnedValue_eq_map he, hfault]; rfl, Scopes.fails_condition ?_⟩
    rw [Scopes.test_eq_map he, hfault]
    rfl
  · intro text htext
    have htest : s.test (some e) = .ok (some (.raw text)) := by
      rw [Scopes.test_eq_map he, htext]
      rfl
    have hcondition := Condition.make_some hbranch (.raw text)
    refine ⟨⟨.raw text, by rw [Scopes.returnedValue_eq_map he, htext]; rfl, fun _ => rfl⟩,
      fun hfollows => ?_, fun t happlied => ?_⟩
    · exact Scopes.succeeds_condition htest (fun hne => hfollows.resolve_left hne) hcondition
    · obtain ⟨o, log, hopening, rfl⟩ := Session.applyCondition_ok happlied
      cases hopening with
      | condition htest' _ hmade =>
        obtain rfl := Except.ok.inj (htest.symm.trans htest')
        obtain rfl := Except.ok.inj (hcondition.symm.trans hmade)
        refine ⟨_, _, s.store.get?_extend_single _ _, rfl, ?_, rfl, ?_⟩
        · intro later hlater blockText routineText body
          unfold Store.kindText
          rw [hlater]
          cases branch with
          | otherwise => exact absurd rfl hbranch
          | ifTrue | elseIf => rfl
        · intro settings script n hs
          have hshown := (Scopes.named_of_after hs).test_text hline hclassify he htext
          refine ⟨hshown, ?_⟩
          rw [hshown, ← String.toList_inj, String.toList_ofList, List.erase_eq_self_iff]

theorem condition_test_of_line_quoted_semicolon :
    ∃ s t block,
      Scopes.after { defaultDependencies := [] } (.ofSource "a" "String s = \"x\"") 1 = some s ∧
      Line.classify "if s.eq(\"a;b\") \x7b" =
        .ok (.condition .ifTrue (some (.method "s" ".eq(\"a;b\")"))) ∧
      s.inlineText (.method "s" ".eq(\"a;b\")") = .ok "$s->eq(\"a;b\")" ∧
      Succeeds (Session.apply (.condition .ifTrue (some (.method "s" ".eq(\"a;b\")")))) s () t ∧
      t.store.get? t.current.block = some block ∧
      block.kind = .condition ⟨.ifTrue, some "$s->eq(\"ab\")"⟩ := by
  have hclassify : Line.classify "if s.eq(\"a;b\") \x7b" =
      .ok (.condition .ifTrue (some (.method "s" ".eq(\"a;b\")"))) :=
    Line.classify_of_testedCall? (by decide +kernel)
  have hcheck : (Scopes.after { defaultDependencies := [] }
      (.ofSource "a" "String s = \"x\"") 1).any (fun s =>
        (s.inlineText (.method "s" ".eq(\"a;b\")")).toOption == some "$s->eq(\"a;b\")") =
        true := by decide +kernel
  rw [Option.any_eq_true] at hcheck
  obtain ⟨s, hs, hshown⟩ := hcheck
  have htext := except_toOption_eq_some (beq_iff_eq.mp hshown)
  obtain ⟨_, hexists, hstored⟩ :=
    (condition_test_of_line (by decide) hclassify (by decide) nofun).2 _ htext
  obtain ⟨t, ht⟩ := hexists (Or.inl rfl)
  obtain ⟨block, test, hblock, hkind, _, _, hreached⟩ := hstored t ht
  obtain ⟨htest, _⟩ := hreached _ _ _ hs
  have hlost : String.ofList ("$s->eq(\"a;b\")".toList.erase ';') = "$s->eq(\"ab\")" := by decide
  rw [htest, hlost] at hkind
  exact ⟨s, t, block, hs, hclassify, htext, ht, hblock, hkind⟩

/-- A quoted text loses its semicolon in the test of a branch, and keeps it in a return. -/
theorem condition_loses_quoted_semicolon :
    ∃ program log,
      compile { defaultDependencies := [] } (.ofSource "a"
        "String s = \"x\"\nif s.eq(\"a;b\") \x7b\nreturn s.eq(\"a;b\")\n\x7d") =
        (.ok program, log) ∧
      program.render = .ok
        ("\nmy $s = stdlib::string->new(\"x\");\nif ($s->eq(\"ab\")) \x7b\n" ++
          "return $s->eq(\"a;b\");\n\x7d\n") := by
  obtain ⟨program, log, h, hcheck⟩ := exists_of_compile_any { defaultDependencies := [] }
    (.ofSource "a" "String s = \"x\"\nif s.eq(\"a;b\") \x7b\nreturn s.eq(\"a;b\")\n\x7d")
    (fun program => program.render.toOption == some
      ("\nmy $s = stdlib::string->new(\"x\");\nif ($s->eq(\"ab\")) \x7b\n" ++
        "return $s->eq(\"a;b\");\n\x7d\n")) (by decide +kernel)
  exact ⟨program, log, h, except_toOption_eq_some (beq_iff_eq.mp hcheck)⟩

end LineScript
