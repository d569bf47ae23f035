import LineScript.Proofs.Tables

/-!
# What the expressions of a script become

An expression of a script becomes a source whose calls go to named routines and whose arguments
are texts and variables. Every variable in it is the one that its name stands for in the open
scopes.
-/
namespace LineScript

section Plain

variable (P : Variable → Prop)

/-- A text, or a variable with the property. -/
def Argument.Plain : Argument → Prop
  | .bound source => P source
  | .inline _ => False
  | .raw _ => True

def MethodCall.Plain : MethodCall → Prop
  | .on receiver _ arguments => P receiver ∧ ∀ argument ∈ arguments, argument.Plain P
  | .after previous _ arguments => previous.Plain ∧ ∀ argument ∈ arguments, argument.Plain P

def Source.Plain : Source → Prop
  | .literal _ => True
  | .variable source => P source
  | .routine call => call.name.isSome = true ∧ ∀ argument ∈ call.arguments, argument.Plain P
  | .method call => call.Plain P
  | .arguments => True

end Plain

theorem Value.toVariable_ok {value : Value} {v : Variable} (h : value.toVariable = .ok v) :
    value.name = some v.name ∧ v.kind = value.kind ∧ v.element = value.element := by
  unfold Value.toVariable at h
  cases hname : value.name with
  | none =>
    rw [hname] at h
    cases h
  | some name =>
    rw [hname] at h
    obtain rfl := Except.ok.inj h
    exact ⟨rfl, rfl, rfl⟩

theorem Assignment.make_ok {target value : Value} {assignment : Assignment}
    (h : Assignment.make target value = .ok assignment) :
    target.toVariable = .ok assignment.target ∧ assignment.value = value := by
  unfold Assignment.make at h
  split_ifs at h
  obtain ⟨v, hv, h⟩ := (except_bind_ok _ _ _).mp h
  obtain rfl := (except_pure_ok _ _).mp h
  exact ⟨hv, rfl⟩

/-- A call goes to the routine under the name that it has in the store. -/
theorem Store.routineCall_ok {s : Store} {id : BlockId} {name : Option String}
    {arguments : List Argument} {call : RoutineCall} (hroutine : s.IsRoutine id name)
    (h : s.routineCall id arguments = .ok call) :
    call.name = name ∧ call.arguments = arguments := by
  obtain ⟨info, hkind, rfl⟩ := hroutine
  obtain ⟨block, hblock, h⟩ := (except_bind_ok _ _ _).mp h
  rw [Store.kindOf_of_get? ((s.block_ok id block).mp hblock), Option.some.injEq] at hkind
  cases hblockKind : block.kind with
  | routine info' =>
    rw [hblockKind] at hkind h
    obtain rfl := BlockKind.routine.inj hkind
    obtain rfl := (except_pure_ok _ _).mp h
    exact ⟨rfl, rfl⟩
  | plain | file _ | condition _ | arrayLoop _ | mapLoop _ | evaluation _ =>
    rw [hblockKind] at hkind
    cases hkind

namespace Scopes

variable {s : Scopes}

/-- The variable is what its name stands for in the open scopes. -/
def Sees (s : Scopes) (v : Variable) : Prop :=
  s.requireVariable v.name = .ok v

theorem requireVariable_ok {name : String} {v : Variable} (h : s.requireVariable name = .ok v) :
    ∃ value, s.resolve name = some value ∧ value.toVariable = .ok v := by
  obtain ⟨value, hvalue, h⟩ := (except_bind_ok _ _ _).mp h
  exact ⟨value, require_ok.mp hvalue, h⟩

/-- The first argument of a call is a variable or the text of the expression. -/
theorem callArguments_cons_ok {expression : Expression} {rest : List Expression}
    {arguments : List Argument} (h : s.callArguments (expression :: rest) = .ok arguments) :
    ∃ first others, arguments = first :: others ∧ s.callArguments rest = .ok others ∧
      ((∃ name v, expression = .variable name ∧ s.requireVariable name = .ok v ∧
          first = .bound v) ∨
        ∃ text, s.inlineText expression = .ok text ∧ first = .raw text) := by
  cases expression with
  | «variable» name =>
    simp only [callArguments] at h
    obtain ⟨v, hv, h⟩ := (except_bind_ok _ _ _).mp h
    obtain ⟨first, hfirst, h⟩ := (except_bind_ok _ _ _).mp h
    obtain ⟨others, hothers, h⟩ := (except_bind_ok _ _ _).mp h
    obtain rfl := (except_pure_ok _ _).mp h
    obtain rfl := (except_pure_ok _ _).mp hfirst
    exact ⟨_, others, rfl, hothers, Or.inl ⟨name, v, rfl, hv, rfl⟩⟩
  | literal content =>
    simp only [callArguments] at h
    obtain ⟨first, hfirst, h⟩ := (except_bind_ok _ _ _).mp h
    obtain ⟨others, hothers, h⟩ := (except_bind_ok _ _ _).mp h
    obtain rfl := (except_pure_ok _ _).mp h
    obtain rfl := (except_pure_ok _ _).mp hfirst
    exact ⟨_, others, rfl, hothers, Or.inr ⟨content.native, by rw [inlineText], rfl⟩⟩
  | arguments | routine _ _ | method _ _ =>
    simp only [callArguments] at h
    obtain ⟨text, htext, h⟩ := (except_bind_ok _ _ _).mp h
    obtain ⟨first, hfirst, h⟩ := (except_bind_ok _ _ _).mp h
    obtain ⟨others, hothers, h⟩ := (except_bind_ok _ _ _).mp h
    obtain rfl := (except_pure_ok _ _).mp h
    obtain rfl := (except_pure_ok _ _).mp hfirst
    exact ⟨_, others, rfl, hothers, Or.inr ⟨text, htext, rfl⟩⟩

namespace Named

theorem name_of_require (hnamed : s.Named) {name : String} {v : Variable}
    (h : s.requireVariable name = .ok v) : v.name = name := by
  obtain ⟨value, hvalue, hv⟩ := requireVariable_ok h
  have hname := hnamed.name_of_resolve hvalue
  rw [(Value.toVariable_ok hv).1] at hname
  exact Option.some.inj hname

theorem sees_of_require (hnamed : s.Named) {name : String} {v : Variable}
    (h : s.requireVariable name = .ok v) : s.Sees v := by
  rw [Sees, hnamed.name_of_require h]
  exact h

theorem sees_of_toVariable (hnamed : s.Named) {name : String} {value : Value} {v : Variable}
    (hvalue : s.require name = .ok value) (hv : value.toVariable = .ok v) : s.Sees v :=
  hnamed.sees_of_require ((except_bind_ok _ _ _).mpr ⟨value, hvalue, hv⟩)

theorem methodArgument_plain (hnamed : s.Named) (text : String) :
    (s.methodArgument text).Plain s.Sees := by
  unfold methodArgument
  split_ifs
  · cases hbound : s.requireVariable text with
    | error fault => trivial
    | ok bound => exact hnamed.sees_of_require hbound
  · trivial

theorem methodArguments_plain (hnamed : s.Named) (texts : List String) :
    ∀ argument ∈ texts.map s.methodArgument, argument.Plain s.Sees := by
  intro argument hargument
  obtain ⟨text, _, rfl⟩ := List.mem_map.mp hargument
  exact hnamed.methodArgument_plain text

theorem extendCalls_plain (hnamed : s.Named) {receiver : Variable}
    {previous : Option MethodCall} {results : List (Except Fault Invocation)} {call : MethodCall}
    (hreceiver : s.Sees receiver)
    (hprevious : ∀ call, previous = some call → call.Plain s.Sees)
    (h : s.extendCalls receiver previous results = .ok (some call)) : call.Plain s.Sees := by
  induction results generalizing previous with
  | nil => exact hprevious call (Except.ok.inj h)
  | cons result rest ih =>
    rw [extendCalls] at h
    obtain ⟨invocation, _, h⟩ := (except_bind_ok _ _ _).mp h
    obtain ⟨texts, _, h⟩ := (except_bind_ok _ _ _).mp h
    refine ih ?_ h
    rintro _ ⟨rfl⟩
    cases previous with
    | none => exact ⟨hreceiver, hnamed.methodArguments_plain texts⟩
    | some before => exact ⟨hprevious before rfl, hnamed.methodArguments_plain texts⟩

theorem methodCall_plain (hnamed : s.Named) {receiver chain : String} {call : MethodCall}
    (h : s.methodCall receiver chain = .ok call) : call.Plain s.Sees := by
  obtain ⟨target, htarget, h⟩ := (except_bind_ok _ _ _).mp h
  obtain ⟨result, hresult, h⟩ := (except_bind_ok _ _ _).mp h
  cases result with
  | none => cases h
  | some call' =>
    obtain rfl := Except.ok.inj h
    exact hnamed.extendCalls_plain (hnamed.sees_of_require htarget) (by simp) hresult

theorem callArguments_plain (hnamed : s.Named) {expressions : List Expression}
    {arguments : List Argument} (h : s.callArguments expressions = .ok arguments) :
    ∀ argument ∈ arguments, argument.Plain s.Sees := by
  induction expressions generalizing arguments with
  | nil =>
    rw [callArguments] at h
    obtain rfl := Except.ok.inj h
    simp
  | cons expression rest ih =>
    obtain ⟨first, others, rfl, hothers, hfirst⟩ := callArguments_cons_ok h
    refine List.forall_mem_cons.mpr ⟨?_, ih hothers⟩
    rcases hfirst with ⟨name, v, _, hv, rfl⟩ | ⟨text, _, rfl⟩
    · exact hnamed.sees_of_require hv
    · trivial

theorem source_plain (hnamed : s.Named) {expression : Expression} {source : Source}
    (h : s.source expression = .ok source) : source.Plain s.Sees := by
  cases expression with
  | literal content =>
    obtain rfl := Except.ok.inj h
    trivial
  | arguments =>
    obtain rfl := Except.ok.inj h
    trivial
  | «variable» name =>
    obtain ⟨bound, hbound, h⟩ := (except_bind_ok _ _ _).mp h
    obtain rfl := (except_pure_ok _ _).mp h
    exact hnamed.sees_of_require hbound
  | routine name arguments =>
    obtain ⟨id, hid, h⟩ := (except_bind_ok _ _ _).mp h
    obtain ⟨arguments', harguments, h⟩ := (except_bind_ok _ _ _).mp h
    obtain ⟨call, hcall, h⟩ := (except_bind_ok _ _ _).mp h
    obtain rfl := (except_pure_ok _ _).mp h
    obtain ⟨hname, rfl⟩ := Store.routineCall_ok (hnamed.isRoutine_of_require hid) hcall
    exact ⟨by rw [hname]; rfl, hnamed.callArguments_plain harguments⟩
  | method receiver chain =>
    obtain ⟨call, hcall, h⟩ := (except_bind_ok _ _ _).mp h
    obtain rfl := (except_pure_ok _ _).mp h
    exact hnamed.methodCall_plain hcall

theorem sees_of_message (hnamed : s.Named) {expression : Option Expression} {v : Variable}
    (h : s.message expression = .ok (.value v)) : s.Sees v := by
  unfold message at h
  split at h
  · cases h
  · obtain ⟨bound, hbound, h⟩ := (except_bind_ok _ _ _).mp h
    obtain rfl := Message.value.inj ((except_pure_ok _ _).mp h)
    exact hnamed.sees_of_require hbound
  · cases h
  · cases h
  · obtain ⟨text, _, h⟩ := (except_bind_ok _ _ _).mp h
    cases (except_pure_ok _ _).mp h

end Named

/-- A value handed back by a script is a variable in scope or a text. -/
theorem returnedValue_ok {expression : Expression} {value : ReturnedValue}
    (h : s.returnedValue expression = .ok value) :
    (∃ name content, s.resolve name = some content ∧ value = .value content) ∨
      ∃ text, value = .raw text := by
  cases expression with
  | «variable» name =>
    obtain ⟨content, hcontent, h⟩ := (except_bind_ok _ _ _).mp h
    obtain rfl := (except_pure_ok _ _).mp h
    exact Or.inl ⟨name, content, require_ok.mp hcontent, rfl⟩
  | literal _ | arguments | routine _ _ | method _ _ =>
    obtain ⟨text, _, h⟩ := (except_bind_ok _ _ _).mp h
    exact Or.inr ⟨text, ((except_pure_ok _ _).mp h).symm⟩

end Scopes

end LineScript
