import LineScript.Proofs.Plain

/-!
# Values that have a text

A value is settled if it has a text whatever the texts of routines are. The checks made when a
value is built are enough for that: what may flow into a value can also be written out. All values
that a script can bring into a store are settled, since calls in a script go to named routines.
-/
namespace LineScript

def Value.Settled (v : Value) : Prop :=
  ∃ text, ∀ routineText, v.expression routineText = .ok text

def MethodCall.Settled (call : MethodCall) : Prop :=
  ∃ text, ∀ routineText, call.expression routineText = .ok text

def RoutineCall.Settled (call : RoutineCall) : Prop :=
  ∃ text, ∀ routineText, call.expression routineText = .ok text

def Argument.Settled (argument : Argument) : Prop :=
  ∃ text, ∀ routineText, argument.expression routineText = .ok text

/-- The calls of the source have a text. -/
def Source.Settled : Source → Prop
  | .routine call => call.Settled
  | .method call => call.Settled
  | .literal _ | .variable _ | .arguments => True

theorem Value.Settled.declaration {v : Value} (h : v.Settled) :
    ∃ text, ∀ routineText, v.declaration routineText = .ok text := by
  obtain ⟨text, htext⟩ := h
  cases hname : v.name with
  | none =>
    refine ⟨text ++ ";\n", fun routineText => ?_⟩
    rw [Value.declaration, htext, hname]
    rfl
  | some name =>
    refine ⟨s!"my ${name} = {text};\n", fun routineText => ?_⟩
    rw [Value.declaration, htext, hname]
    rfl

section Calls

variable {arguments : List Argument}

theorem argumentExpressions_settled (h : ∀ argument ∈ arguments, argument.Settled) :
    ∃ texts, ∀ routineText, argumentExpressions routineText arguments = .ok texts := by
  induction arguments with
  | nil => exact ⟨[], fun _ => rfl⟩
  | cons argument rest ih =>
    rw [List.forall_mem_cons] at h
    obtain ⟨text, htext⟩ := h.1
    obtain ⟨texts, htexts⟩ := ih h.2
    refine ⟨text :: texts, fun routineText => ?_⟩
    rw [argumentExpressions, htext, htexts]
    rfl

theorem MethodCall.settled_on (receiver : Variable) (method : String)
    (h : ∀ argument ∈ arguments, argument.Settled) :
    (MethodCall.on receiver method arguments).Settled := by
  obtain ⟨texts, htexts⟩ := argumentExpressions_settled h
  refine ⟨applied s!"{receiver.reference}->{method}" texts, fun routineText => ?_⟩
  rw [MethodCall.expression, htexts]
  rfl

theorem MethodCall.Settled.after {previous : MethodCall} (hprevious : previous.Settled)
    (method : String) (h : ∀ argument ∈ arguments, argument.Settled) :
    (MethodCall.after previous method arguments).Settled := by
  obtain ⟨receiver, hreceiver⟩ := hprevious
  obtain ⟨texts, htexts⟩ := argumentExpressions_settled h
  refine ⟨applied s!"{receiver}->{method}" texts, fun routineText => ?_⟩
  rw [MethodCall.expression, hreceiver, htexts]
  rfl

theorem RoutineCall.settled_of_named {call : RoutineCall} (hname : call.name.isSome = true)
    (h : ∀ argument ∈ call.arguments, argument.Settled) : call.Settled := by
  obtain ⟨routine, callName, returned, arguments⟩ := call
  obtain ⟨name, rfl⟩ := Option.isSome_iff_exists.mp hname
  obtain ⟨texts, htexts⟩ := argumentExpressions_settled h
  refine ⟨applied name texts, fun routineText => ?_⟩
  rw [RoutineCall.expression, htexts]
  rfl

end Calls

section Plain

variable {P : Variable → Prop}

theorem Argument.Plain.settled {argument : Argument} (h : argument.Plain P) : argument.Settled := by
  cases argument with
  | bound source => exact ⟨source.accessor, fun _ => rfl⟩
  | inline value => exact h.elim
  | raw text => exact ⟨text, fun _ => rfl⟩

theorem MethodCall.Plain.settled {call : MethodCall} (h : call.Plain P) : call.Settled := by
  fun_induction MethodCall.Plain P call with
  | case1 receiver method arguments =>
    exact MethodCall.settled_on receiver method fun argument hmem => (h.2 argument hmem).settled
  | case2 previous method arguments ih =>
    exact (ih h.1).after method fun argument hmem => (h.2 argument hmem).settled

theorem RoutineCall.settled_of_plain {call : RoutineCall} (hname : call.name.isSome = true)
    (h : ∀ argument ∈ call.arguments, argument.Plain P) : call.Settled :=
  settled_of_named hname fun argument hmem => (h argument hmem).settled

theorem Source.Plain.settled {source : Source} (h : source.Plain P) : source.Settled := by
  cases source with
  | literal _ | «variable» _ | arguments => trivial
  | routine call => exact RoutineCall.settled_of_plain h.1 h.2
  | method call => exact MethodCall.Plain.settled h

end Plain

namespace Kind

theorem eq_scalar_of_accepts {target source : Kind} (h : target.accepts source = .unwrapped) :
    target = .scalar := by
  unfold accepts at h
  split_ifs at h with _ hscalar
  exact hscalar.1

end Kind

namespace Value

theorem kind_of_acceptsVariable {v : Value} {source : Variable}
    (h : v.acceptsVariable source = .unwrapped) : v.kind = .scalar := by
  unfold acceptsVariable at h
  cases hflow : v.kind.accepts source.kind with
  | unwrapped => exact Kind.eq_scalar_of_accepts hflow
  | refused =>
    rw [hflow] at h
    cases h
  | exact =>
    simp only [hflow] at h
    split_ifs at h

/-- What may flow into a value from a variable can be written out. -/
theorem variableExpression_ok {v : Value} {source : Variable}
    (h : v.acceptsVariable source ≠ .refused) : ∃ text, v.variableExpression source = .ok text := by
  unfold variableExpression
  cases hflow : v.acceptsVariable source with
  | refused => exact absurd hflow h
  | exact => cases v.kind <;> exact ⟨_, rfl⟩
  | unwrapped => exact ⟨source.reference ++ "->valueOf()", by rw [kind_of_acceptsVariable hflow]⟩

theorem settled_of_checkSource {kind : Kind} {name : Option String} {element : Option Kind}
    {source : Source} {unwraps : Bool} (hsource : source.Settled)
    (h : Value.checkSource ⟨kind, name, element, source, false⟩ = .ok unwraps) :
    Value.Settled ⟨kind, name, element, source, unwraps⟩ := by
  cases source with
  | literal content =>
    obtain ⟨text, htext, _⟩ := (except_bind_ok _ _ _).mp h
    exact ⟨text, fun routineText => htext⟩
  | «variable» source =>
    have hflow : Value.acceptsVariable ⟨kind, name, element, .variable source, unwraps⟩ source ≠
        .refused := by
      intro hrefused
      change Value.acceptsVariable ⟨kind, name, element, .variable source, false⟩ source =
        .refused at hrefused
      rw [checkSource] at h
      simp [hrefused] at h
    obtain ⟨text, htext⟩ := variableExpression_ok hflow
    exact ⟨text, fun routineText => htext⟩
  | routine call =>
    obtain ⟨text, htext⟩ := hsource
    refine ⟨if unwraps then text ++ "->valueOf()" else text, fun routineText => ?_⟩
    rw [Value.expression, htext]
    rfl
  | method call =>
    obtain ⟨text, htext⟩ := hsource
    exact ⟨text, htext⟩
  | arguments =>
    simp only [checkSource] at h
    split at h
    · exact ⟨Literal.newObject .array "@ARGV", fun routineText => rfl⟩
    · exact ⟨_, fun routineText => rfl⟩
    · cases h

theorem settled_of_source {kind : Kind} {name : Option String} {element : Option Kind}
    {source : Source} {v : Value} (h : Value.make kind name element source = .ok v)
    (hsource : source.Settled) : v.Settled := by
  cases v with
  | mk kind' name' element' source' unwraps =>
    obtain ⟨rfl, rfl, _, rfl, hcheck⟩ := make_ok h
    exact settled_of_checkSource hsource hcheck

theorem settled_of_make {P : Variable → Prop} {kind : Kind} {name : Option String}
    {element : Option Kind} {source : Source} {v : Value}
    (h : Value.make kind name element source = .ok v) (hplain : source.Plain P) : v.Settled :=
  settled_of_source h hplain.settled

end Value

end LineScript
