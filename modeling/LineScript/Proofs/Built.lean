import LineScript.Proofs.Settled
import LineScript.Block.Text

/-!
# Values that exist have a text

A value is built from its parts: inline values first, then the calls that take them as arguments,
then the source, then the value itself. Each step that succeeds leaves something that can be written
out, so that a value which has passed its checks never fails to be rendered, whatever the store.
-/
namespace LineScript

mutual

/-- The value has been made from a source, or stands for a parameter. -/
inductive Value.Built : Value → Prop where
  | made {kind : Kind} {name : Option String} {element : Option Kind} {source : Source}
      {v : Value} (hsource : Source.Built source)
      (h : Value.make kind name element source = .ok v) : Value.Built v
  | placeholder (name : String) (kind : Kind) : Value.Built (.placeholder name kind)

/-- Routines are called by name, and all inline values of the source are built. -/
inductive Source.Built : Source → Prop where
  | literal (content : Literal) : Source.Built (.literal content)
  | variable (source : Variable) : Source.Built (.variable source)
  | routine {call : RoutineCall} (hname : call.name.isSome = true)
      (h : ∀ argument ∈ call.arguments, Argument.Built argument) : Source.Built (.routine call)
  | method {call : MethodCall} (h : MethodCall.Built call) : Source.Built (.method call)
  | arguments : Source.Built .arguments

inductive MethodCall.Built : MethodCall → Prop where
  | on (receiver : Variable) (method : String) {arguments : List Argument}
      (h : ∀ argument ∈ arguments, Argument.Built argument) :
      MethodCall.Built (.on receiver method arguments)
  | after {previous : MethodCall} (hprevious : MethodCall.Built previous) (method : String)
      {arguments : List Argument} (h : ∀ argument ∈ arguments, Argument.Built argument) :
      MethodCall.Built (.after previous method arguments)

inductive Argument.Built : Argument → Prop where
  | bound (source : Variable) : Argument.Built (.bound source)
  | inline {v : Value} (h : Value.Built v) : Argument.Built (.inline v)
  | raw (text : String) : Argument.Built (.raw text)

end

theorem Value.settled_placeholder (name : String) (kind : Kind) :
    (Value.placeholder name kind).Settled := by
  cases kind <;> exact ⟨_, fun _ => rfl⟩

mutual

theorem Value.Built.settled : ∀ {v : Value}, v.Built → v.Settled
  | _, .made hsource hmake => Value.settled_of_source hmake hsource.settled
  | _, .placeholder name kind => Value.settled_placeholder name kind

theorem Source.Built.settled : ∀ {source : Source}, source.Built → source.Settled
  | _, .literal _ => trivial
  | _, .variable _ => trivial
  | _, .arguments => trivial
  | _, .routine hname h =>
    RoutineCall.settled_of_named hname fun argument hmem => (h argument hmem).settled
  | _, .method h => h.settled

theorem MethodCall.Built.settled : ∀ {call : MethodCall}, call.Built → call.Settled
  | _, .on receiver method h =>
    MethodCall.settled_on receiver method fun argument hmem => (h argument hmem).settled
  | _, .after hprevious method h =>
    hprevious.settled.after method fun argument hmem => (h argument hmem).settled

theorem Argument.Built.settled : ∀ {argument : Argument}, argument.Built → argument.Settled
  | _, .bound source => ⟨source.accessor, fun _ => rfl⟩
  | _, .inline h => h.settled
  | _, .raw text => ⟨text, fun _ => rfl⟩

end

/-- A value that has been made can be written out, as an expression and as a declaration, and its
texts are the same in every store. Its calls go to named routines; whatever else its source is made
of, and however deep inline values stand in it, they have been made or are placeholders. -/
theorem made_values_render {kind : Kind} {name : Option String} {element : Option Kind}
    {source : Source} {v : Value} (hsource : source.Built)
    (h : Value.make kind name element source = .ok v) :
    ∃ expression declaration : String, ∀ s : Store,
      v.expression s.routineText = .ok expression ∧
        v.declaration s.routineText = .ok declaration := by
  have hsettled : v.Settled := (Value.Built.made hsource h).settled
  obtain ⟨expression, hexpression⟩ := hsettled
  obtain ⟨declaration, hdeclaration⟩ := Value.Settled.declaration ⟨expression, hexpression⟩
  exact ⟨expression, declaration, fun s => ⟨hexpression _, hdeclaration _⟩⟩

/-- A number that is handed over as a plain scalar. -/
def unwrappedNumber : Value :=
  ⟨.scalar, none, none, .variable ⟨"n", .integer, none⟩, true⟩

/-- The result of a routine that takes the number. -/
def unwrappedResult : Value :=
  ⟨.scalar, none, none,
    .routine ⟨3, some "f", some (.single (some .integer)), [.inline unwrappedNumber, .raw "1"]⟩,
    true⟩

/-- Two calls one after the other, with the result among the arguments of the first. -/
def chainedCalls : MethodCall :=
  .after (.on ⟨"xs", .array, some .integer⟩ "map" [.inline unwrappedResult]) "join"
    [.inline (.placeholder "p" .map), .bound ⟨"s", .string, none⟩]

theorem unwrappedResult_built : unwrappedResult.Built := by
  have hnumber : Value.make .scalar none none unwrappedNumber.source = .ok unwrappedNumber := rfl
  have hresult : Value.make .scalar none none unwrappedResult.source = .ok unwrappedResult := rfl
  refine .made (.routine rfl ?_) hresult
  rw [List.forall_mem_cons, List.forall_mem_singleton]
  exact ⟨.inline (.made (.variable _) hnumber), .raw "1"⟩

theorem chainedCalls_built : chainedCalls.Built := by
  refine .after (.on _ _ ?_) _ ?_
  · exact List.forall_mem_singleton.mpr (.inline unwrappedResult_built)
  · rw [List.forall_mem_cons, List.forall_mem_singleton]
    exact ⟨.inline (.placeholder "p" .map), .bound _⟩

theorem made_values_render_nested :
    ∃ v, Value.make .string (some "t") none (.method chainedCalls) = .ok v ∧
      ∀ s : Store, v.declaration s.routineText = .ok ("my $t = $xs->map(f($n->valueOf(), 1)" ++
        "->valueOf())->join(stdlib::hashmap->new(), $s->valueOf());\n") := by
  have hmake : Value.make .string (some "t") none (.method chainedCalls) =
      .ok ⟨.string, some "t", none, .method chainedCalls, false⟩ := rfl
  obtain ⟨expression, declaration, htexts⟩ :=
    made_values_render (.method chainedCalls_built) hmake
  refine ⟨_, hmake, fun s => ?_⟩
  rw [(htexts s).2, ← (htexts .empty).2]
  rfl

end LineScript
