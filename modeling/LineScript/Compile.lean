import LineScript.Diagnostic
import LineScript.Line.Classify
import LineScript.Program
import LineScript.Scope.Resolve
import LineScript.Script
import LineScript.Settings

/-!
# Compilation

The lines of a script are classified one by one and applied to the open scopes. The first fault
ends the compilation, with the place of its line.
-/
namespace LineScript

namespace Session

def look {α : Type} (view : Scopes → Except Fault α) : Session α := do
  ofExcept (view (← get))

def kindOf (type : TypeName) : Except Fault (Kind × Option Kind) := do
  let kind ← Kind.ofText type.name
  let element ← type.element.mapM Kind.elementOfText
  return (kind, element)

def applyDeclaration (type : TypeName) (name : String) (value : Expression) : Session Unit := do
  let (kind, element) ← ofExcept (kindOf type)
  let source ← look (·.source value)
  let value ← ofExcept (Value.make kind (some name) element source)
  debug s!"declare {value.kind.name} {name}"
  let _ ← declare name value

def applyAssignment (name : String) (value : Expression) : Session Unit := do
  let target ← look (·.require name)
  let source ← look (·.source value)
  let value ← ofExcept (Value.make target.kind none target.element source)
  debug s!"reassign {name} ({target.kind.name})"
  let assignment ← ofExcept (Assignment.make target value)
  append (.statement (.assign assignment))

/-- Every call of the chain is a statement of its own on the same variable. -/
def appendCalls (receiver : Variable) : List (Except Fault Invocation) → Session Unit
  | [] => return
  | result :: rest => do
    let invocation ← ofExcept result
    let arguments ← ofExcept invocation.argumentList
    let arguments := arguments.map (← get).methodArgument
    append (.method (.on receiver invocation.method arguments))
    appendCalls receiver rest

def applyCalls (receiver chain : String) : Session Unit := do
  let receiver ← look (·.requireVariable receiver)
  appendCalls receiver (Chain.ofText chain).results.1

/-- A parameter as the routine binds it and as its body sees it. -/
def parameterValue (p : Parameter) : Except Fault (BoundParameter × Value) := do
  let (kind, element) ←
    match p.type with
    | some type => kindOf type
    | none => pure (Kind.scalar, none)
  let value ← Value.make kind (some p.name) element (.literal .undefined)
  return (⟨p.name, if kind.isWrapped then some kind.className else none⟩, value)

def bindAll : List (BoundParameter × Value) → Session Unit
  | [] => return
  | (parameter, value) :: rest => do
    bind parameter.name value
    bindAll rest

/-- The name of a routine belongs to the scope around it. -/
def applyRoutine (name : Option String) (parameters : List Parameter)
    (returns : Option TypeName) : Session Unit := do
  let declared ← ofExcept (returns.mapM fun type => Kind.ofText type.name)
  let parameters ← ofExcept (parameters.mapM parameterValue)
  let block ← edit (Edit.newRoutine name (parameters.map Prod.fst) .destructure declared)
  match name with
  | some name => declareRoutine name block
  | none => pure ()
  let _ ← enter block
  bindAll parameters
  let shown := name.getD "<anonymous>"
  debug s!"routine {shown}"

def applyReturn (values : List Expression) : Session Unit := do
  let s ← get
  let values ← ofExcept (values.mapM s.returnedValue)
  append (.statement (.giveBack (.ofValues values)))

def applyCondition (branch : Branch) (value : Option Expression) : Session Unit := do
  let test ← look (·.test value)
  if branch ≠ .ifTrue then
    if !(← look (·.followsBranch)) then throw (.branchAlone branch.keyword)
  let block ← edit (Edit.newCondition branch test)
  let _ ← enter block

def applyLoop (element iterable : String) : Session Unit := do
  let collection ← look (·.require iterable)
  if collection.kind = .map then
    let block ← edit (Edit.newMapLoop collection element)
    let _ ← enter block
    bind element (.placeholder element (collection.element.getD .scalar))
  else
    let (block, item) ← edit (Edit.newArrayLoop collection element)
    let _ ← enter block
    bind element item

def applyTry : Session Unit := do
  let block ← edit Edit.newEvaluation
  let _ ← enter block

def applySignal (name : String) (parameter : Option String) : Session Unit := do
  let signal ← ofExcept (Signal.ofText name)
  let bound := parameter.toList.map fun parameter => ⟨parameter, none⟩
  let routine ← edit (Edit.newRoutine none bound .shift none)
  let _ ← enterHandler signal routine
  match parameter with
  | some parameter => bind parameter (.placeholder parameter .scalar)
  | none => pure ()

def applyPrint (value : Option Expression) : Session Unit := do
  let message ← look (·.message value)
  append (.statement (.print ⟨message, true⟩))

def applyImport (path : String) (symbols : Option (List String)) : Session Unit := do
  let dependency ← ofExcept (Dependency.make path symbols)
  importModule dependency

def applyPackage (path : String) : Session Unit := do
  let path ← ofExcept (modulePath path)
  setPackage path

def apply : Construct → Session Unit
  | .blank => append (.text "\n")
  | .comment => return
  | .openScope => do let _ ← push
  | .closeScope => do let _ ← pop
  | .importModule path symbols => applyImport path symbols
  | .package path => applyPackage path
  | .declare type name value => applyDeclaration type name value
  | .assign name value => applyAssignment name value
  | .methodChain receiver chain => applyCalls receiver chain
  | .routine name parameters returns => applyRoutine name parameters returns
  | .giveBack values => applyReturn values
  | .condition branch value => applyCondition branch value
  | .loop element iterable => applyLoop element iterable
  | .attempt => applyTry
  | .signal name parameter => applySignal name parameter
  | .print value => applyPrint value
  | .exit code => append (.statement (.exit code))

def applyLine (file : String) (number : Nat) (text : String) : Session Unit := do
  let construct ← ofExcept (Line.classify text)
  debug s!"{file}:{number} {construct.label}"
  apply construct

end Session

namespace Scopes

/-- The scopes after the lines, or at the first line with a fault. -/
def applyLines (file : String) : List (Nat × String) → Scopes → Except Diagnostic Unit × Scopes
  | [], s => (.ok (), s)
  | (number, text) :: rest, s =>
    match (Session.applyLine file number text).run s with
    | (.ok (), s) => applyLines file rest s
    | (.error fault, s) => (.error (.onLine file number text fault), s)

end Scopes

def compile (settings : Settings) (script : Script) : Except Diagnostic Program × List LogEntry :=
  match Scopes.openFile script.stem settings.isModule settings.defaultDependencies with
  | .error fault => (.error (.ofFault fault), [])
  | .ok scopes =>
    match (Session.append (.text "\n")).run scopes with
    | (.error fault, scopes) => (.error (.ofFault fault), scopes.log)
    | (.ok (), scopes) =>
      let lines := script.lines
      let last := lines.length
      match scopes.applyLines script.name lines with
      | (.error diagnostic, scopes) => (.error diagnostic, scopes.log)
      | (.ok (), scopes) =>
        match scopes.finish with
        | .error fault =>
          (.error ((Diagnostic.ofFault fault).locate ⟨script.name, last, 1⟩ none), scopes.log)
        | .ok (store, root) =>
          let summary := s!"compiled {script.name} ({last} lines, {store.size} blocks)"
          (.ok ⟨script.stem, store, root, settings.tabSize⟩, scopes.log ++ [⟨.info, summary⟩])

def compileSource (name content : String) : Except Diagnostic String := do
  let program ← (compile {} (.ofSource name content)).1
  match program.text with
  | .ok text => return text
  | .error fault => throw (.ofFault fault)

end LineScript
