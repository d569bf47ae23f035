import LineScript.Proofs.Alike
import LineScript.Proofs.Plain

/-!
# Shifted blocks

A script that stands inside other blocks numbers its own blocks from a later number on. `shift` adds
a constant to all numbers of blocks in values, elements and scopes. The file of a script becomes a
plain block if it stands inside another. Calls in a script go to routines by name, so that no text
and no check depends on these numbers.
-/
namespace LineScript

section Shift

variable (k : Nat)

def RoutineCall.shift (call : RoutineCall) : RoutineCall :=
  { call with routine := call.routine + k }

def Source.shift : Source → Source
  | .routine call => .routine (call.shift k)
  | other => other

def Value.shift (v : Value) : Value :=
  { v with source := v.source.shift k }

def ReturnedValue.shift : ReturnedValue → ReturnedValue
  | .value content => .value (content.shift k)
  | .raw text => .raw text

def Return.shift (r : Return) : Return :=
  { r with values := r.values.map (ReturnedValue.shift k) }

def Assignment.shift (a : Assignment) : Assignment :=
  { a with value := a.value.shift k }

def Statement.shift : Statement → Statement
  | .giveBack r => .giveBack (r.shift k)
  | .assign a => .assign (a.shift k)
  | .signal s routine => .signal s (routine + k)
  | other => other

def Element.shift : Element → Element
  | .block child => .block (child + k)
  | .value content => .value (content.shift k)
  | .statement content => .statement (content.shift k)
  | other => other

/-- The values of a loop are literals and method calls, which hold no numbers of blocks. -/
def BlockKind.shift : BlockKind → BlockKind
  | .file info => if k = 0 then .file info else .plain
  | .evaluation handler => .evaluation (handler + k)
  | other => other

def Block.shift (block : Block) : Block where
  kind := block.kind.shift k
  elements := block.elements.map (Element.shift k)
  closed := block.closed
  root := block.root.map (· + k)

/-- The scope with the path of the scopes around it in front. -/
def Scope.shift (base : ScopePath) (scope : Scope) : Scope where
  path := base ++ scope.path
  block := scope.block + k
  values := scope.values.map fun p => (p.1, p.2.shift k)
  routines := scope.routines.map fun p => (p.1, p.2 + k)
  children := scope.children
  merge := scope.merge

end Shift

variable {k : Nat}

theorem RoutineCall.expression_shift {call : RoutineCall} (hname : call.name.isSome = true)
    (routineText : BlockId → Except Fault String) :
    (call.shift k).expression routineText = call.expression routineText := by
  obtain ⟨routine, callName, returned, arguments⟩ := call
  obtain ⟨name, rfl⟩ := Option.isSome_iff_exists.mp hname
  rw [RoutineCall.shift, RoutineCall.expression, RoutineCall.expression]

theorem Value.shift_eq_self {v : Value} (h : v.source.shift k = v.source) : v.shift k = v := by
  obtain ⟨kind, name, element, source, unwraps⟩ := v
  exact congrArg (fun source => Value.mk kind name element source unwraps) h

theorem Value.checkSource_shift (kind : Kind) (name : Option String) (element : Option Kind)
    (source : Source) :
    Value.checkSource ⟨kind, name, element, source.shift k, false⟩ =
      Value.checkSource ⟨kind, name, element, source, false⟩ := by
  cases source <;> rfl

theorem Value.make_shift (kind : Kind) (name : Option String) (element : Option Kind)
    (source : Source) :
    Value.make kind name element (source.shift k) =
      (Value.make kind name element source).map (Value.shift k) := by
  unfold make
  cases kind.elementFor element with
  | error fault => rfl
  | ok element =>
    simp only [bind, Except.bind, checkSource_shift]
    cases Value.checkSource ⟨kind, name, element, source, false⟩ with
    | error fault => rfl
    | ok unwraps => rfl

theorem Assignment.make_shift (target value : Value) :
    Assignment.make (target.shift k) (value.shift k) =
      (Assignment.make target value).map (Assignment.shift k) := by
  have hanonymous : (value.shift k).isAnonymous = value.isAnonymous := rfl
  have htarget : (target.shift k).toVariable = target.toVariable := rfl
  unfold make
  rw [hanonymous, htarget]
  cases value.isAnonymous with
  | false => rfl
  | true => cases target.toVariable <;> rfl

theorem Return.returned_shift (r : Return) : (r.shift k).returned = r.returned := by
  have hkind : (ReturnedValue.kind ∘ ReturnedValue.shift k) = ReturnedValue.kind := by
    funext value
    cases value <;> rfl
  unfold returned
  simp only [Return.shift, List.map_map, List.head?_map, Option.bind_map, hkind]

theorem Return.ofValues_shift (values : List ReturnedValue) :
    Return.ofValues (values.map (ReturnedValue.shift k)) = (Return.ofValues values).shift k := by
  simp [ofValues, Return.shift]

theorem Element.isSolid_shift (e : Element) : (e.shift k).isSolid = e.isSolid := by
  cases e <;> rfl

theorem lastBlock?_shift (elements : List Element) :
    lastBlock? (elements.map (Element.shift k)) = (lastBlock? elements).map (· + k) := by
  unfold lastBlock?
  rw [← List.map_reverse, List.find?_map]
  have hsolid : Element.isSolid ∘ Element.shift k = Element.isSolid :=
    funext Element.isSolid_shift
  rw [hsolid]
  cases elements.reverse.find? Element.isSolid with
  | none => rfl
  | some e => cases e <;> rfl

theorem BlockKind.isRoutine_shift (kind : BlockKind) :
    (kind.shift k).isRoutine = kind.isRoutine := by
  cases kind with
  | file info =>
    simp only [shift]
    split_ifs <;> rfl
  | plain | routine _ | condition _ | arrayLoop _ | mapLoop _ | evaluation _ => rfl

theorem BlockKind.isFile_of_shift {kind : BlockKind} (h : (kind.shift k).isFile = true) :
    kind.isFile = true := by
  cases kind with
  | file info => rfl
  | plain | routine _ | condition _ | arrayLoop _ | mapLoop _ | evaluation _ => exact h

section Zero

theorem Value.shift_zero (v : Value) : v.shift 0 = v := by
  apply Value.shift_eq_self
  cases v.source with
  | routine call =>
    cases call
    rfl
  | literal _ | «variable» _ | method _ | arguments => rfl

theorem Return.shift_zero (r : Return) : r.shift 0 = r := by
  have hvalue : ReturnedValue.shift 0 = id := by
    funext value
    cases value with
    | value content => exact congrArg ReturnedValue.value content.shift_zero
    | raw text => rfl
  rw [Return.shift, hvalue, List.map_id]

theorem Element.shift_zero (e : Element) : e.shift 0 = e := by
  cases e with
  | text _ | block _ | method _ => rfl
  | value content => exact congrArg Element.value content.shift_zero
  | statement content =>
    cases content with
    | dependency _ | binding _ | print _ | signal _ _ | exit _ | package _ => rfl
    | giveBack r => exact congrArg (fun r => Element.statement (.giveBack r)) r.shift_zero
    | assign a =>
      simp only [Element.shift, Statement.shift, Assignment.shift, Value.shift_zero]

theorem Element.map_shift_zero (elements : List Element) :
    elements.map (Element.shift 0) = elements :=
  (List.map_congr_left fun e _ => e.shift_zero).trans (List.map_id' _)

theorem BlockKind.shift_zero (kind : BlockKind) : kind.shift 0 = kind := by
  cases kind <;> rfl

theorem Scope.shift_zero (scope : Scope) : scope.shift 0 [] = scope := by
  simp [Scope.shift, Value.shift_zero]

end Zero

end LineScript
