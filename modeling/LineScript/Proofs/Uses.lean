import LineScript.Proofs.Plain

/-!
# Variables in use

The variables that a value, a call or an element refers to, and the values that an element hands
back. What a script puts into a block only refers to variables that the open scopes bind.
-/
namespace LineScript

mutual

def Value.uses : Value → List Variable
  | ⟨_, _, _, source, _⟩ => source.uses

def Source.uses : Source → List Variable
  | .literal _ => []
  | .variable source => [source]
  | .routine call => call.uses
  | .method call => call.uses
  | .arguments => []

def RoutineCall.uses : RoutineCall → List Variable
  | ⟨_, _, _, arguments⟩ => argumentUses arguments

def MethodCall.uses : MethodCall → List Variable
  | .on receiver _ arguments => receiver :: argumentUses arguments
  | .after previous _ arguments => previous.uses ++ argumentUses arguments

def Argument.uses : Argument → List Variable
  | .bound source => [source]
  | .inline value => value.uses
  | .raw _ => []

def argumentUses : List Argument → List Variable
  | [] => []
  | argument :: rest => argument.uses ++ argumentUses rest

end

def Message.uses : Message → List Variable
  | .value content => [content]
  | .raw _ | .empty => []

def ReturnedValue.value? : ReturnedValue → Option Value
  | .value content => some content
  | .raw _ => none

/-- The values that an element hands back. -/
def Element.returned : Element → List Value
  | .statement (.giveBack r) => r.values.filterMap ReturnedValue.value?
  | _ => []

/-- A return keeps the values that it hands back with everything that these refer to. -/
def Statement.uses : Statement → List Variable
  | .giveBack r => (r.values.filterMap ReturnedValue.value?).flatMap Value.uses
  | .print p => p.message.uses
  | .assign a => a.target :: a.value.uses
  | .dependency _ | .binding _ | .signal _ _ | .exit _ | .package _ => []

def Element.uses : Element → List Variable
  | .text _ | .block _ => []
  | .value v => v.uses
  | .method call => call.uses
  | .statement content => content.uses

/-- The variables that the header of a block refers to. -/
def BlockKind.uses : BlockKind → List Variable
  | .arrayLoop loop => loop.array :: (loop.counter.uses ++ loop.length.uses ++ loop.element.uses)
  | .mapLoop loop => [loop.map]
  | .plain | .file _ | .routine _ | .condition _ | .evaluation _ => []

theorem Element.uses_cases {e : Element} {v : Variable} (hv : v ∈ e.uses) :
    e.returned = [] ∨ ∃ content ∈ e.returned, v ∈ content.uses := by
  cases e with
  | text _ | block _ | value _ | method _ => exact Or.inl rfl
  | statement content =>
    cases content with
    | giveBack r => exact Or.inr (List.mem_flatMap.mp hv)
    | dependency _ | binding _ | print _ | assign _ | signal _ _ | exit _ | package _ =>
      exact Or.inl rfl

theorem Element.uses_of_mem_returned {e : Element} {content : Value} (h : content ∈ e.returned) :
    content.uses ⊆ e.uses := by
  intro v hv
  cases e with
  | text _ | block _ | value _ | method _ => cases h
  | statement st =>
    cases st with
    | giveBack r => exact List.mem_flatMap.mpr ⟨content, h, hv⟩
    | dependency _ | binding _ | print _ | assign _ | signal _ _ | exit _ | package _ => cases h

section Plain

variable {P : Variable → Prop}

theorem argumentUses_of_plain {arguments : List Argument}
    (h : ∀ argument ∈ arguments, argument.Plain P) : ∀ v ∈ argumentUses arguments, P v := by
  induction arguments with
  | nil => simp [argumentUses]
  | cons argument rest ih =>
    rw [List.forall_mem_cons] at h
    intro v hv
    rw [argumentUses, List.mem_append] at hv
    rcases hv with hv | hv
    · cases argument with
      | bound source =>
        rw [Argument.uses, List.mem_singleton] at hv
        exact hv ▸ h.1
      | inline value => exact h.1.elim
      | raw text => simp [Argument.uses] at hv
    · exact ih h.2 v hv

theorem MethodCall.uses_of_plain {call : MethodCall} (h : call.Plain P) :
    ∀ v ∈ call.uses, P v := by
  fun_induction MethodCall.Plain P call with
  | case1 receiver method arguments =>
    rw [MethodCall.uses, List.forall_mem_cons]
    exact ⟨h.1, argumentUses_of_plain h.2⟩
  | case2 previous method arguments ih =>
    rw [MethodCall.uses, List.forall_mem_append]
    exact ⟨ih h.1, argumentUses_of_plain h.2⟩

theorem Source.uses_of_plain {source : Source} (h : source.Plain P) : ∀ v ∈ source.uses, P v := by
  cases source with
  | literal content => simp [Source.uses]
  | arguments => simp [Source.uses]
  | «variable» v =>
    rw [Source.uses, List.forall_mem_singleton]
    exact h
  | method call =>
    rw [Source.uses]
    exact MethodCall.uses_of_plain h
  | routine call =>
    cases call with
    | mk routine name returned arguments =>
      rw [Source.uses, RoutineCall.uses]
      exact argumentUses_of_plain h.2

theorem Value.uses_of_make {kind : Kind} {name : Option String} {element : Option Kind}
    {source : Source} {v : Value} (h : Value.make kind name element source = .ok v) :
    v.uses = source.uses := by
  cases v with
  | mk kind' name' element' source' unwraps =>
    obtain ⟨_, _, _, rfl, _⟩ := Value.make_ok h
    rw [Value.uses]

end Plain

theorem Scopes.Adds.uses {s : Scopes} (hnamed : s.Named) {c : Construct} {element : Element}
    (h : s.Adds c element) (hreturned : element.returned = []) : ∀ v ∈ element.uses, s.Sees v := by
  cases h with
  | blank | exit _ => simp [Element.uses, Statement.uses]
  | giveBack _ =>
    rw [Element.returned] at hreturned
    simp [Element.uses, Statement.uses, hreturned]
  | call hreceiver _ _ =>
    exact MethodCall.uses_of_plain
      ⟨hnamed.sees_of_require hreceiver, hnamed.methodArguments_plain _⟩
  | assign htarget hsource hvalue hassignment =>
    obtain ⟨hvariable, rfl⟩ := Assignment.make_ok hassignment
    rw [Element.uses, Statement.uses, List.forall_mem_cons, Value.uses_of_make hvalue]
    exact ⟨hnamed.sees_of_toVariable htarget hvariable,
      Source.uses_of_plain (hnamed.source_plain hsource)⟩
  | @print expression message hmessage =>
    rw [Element.uses, Statement.uses]
    cases message with
    | raw text => simp [Message.uses]
    | empty => simp [Message.uses]
    | value v =>
      rw [Message.uses, List.forall_mem_singleton]
      exact hnamed.sees_of_message hmessage

theorem Scopes.Adds.returned {s : Scopes} {c : Construct} {element : Element}
    (h : s.Adds c element) :
    ∀ content ∈ element.returned, ∃ name, s.resolve name = some content := by
  cases h with
  | blank | exit _ | call _ _ _ | assign _ _ _ _ | print _ => simp [Element.returned]
  | giveBack hvalues =>
    intro content hcontent
    obtain ⟨value, hvalue, hsome⟩ := List.mem_filterMap.mp hcontent
    obtain ⟨expression, _, hexpression⟩ := exists_of_mem_mapM hvalues hvalue
    rcases returnedValue_ok hexpression with ⟨name, content', hresolve, rfl⟩ | ⟨text, rfl⟩
    · exact ⟨name, Option.some.inj hsome ▸ hresolve⟩
    · cases hsome

end LineScript
