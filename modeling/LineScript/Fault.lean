import LineScript.Kind
import LineScript.Text.Shown

/-!
# Faults

Every way in which a script, a setting or an input can be refused, as a cause with the data that
its wording needs. The class of a fault, the part of the program that raises it and its wording
are functions of the cause.
-/
namespace LineScript

inductive FaultClass where
  | undefinedVariable
  | unknownType
  | typeMismatch
  | invalidLiteral
  | structural
  | unsupported
  | form
  | input
  | settings
deriving DecidableEq, Repr, Inhabited

namespace FaultClass

def all : List FaultClass :=
  [undefinedVariable, unknownType, typeMismatch, invalidLiteral, structural, unsupported, form,
    input, settings]

def name : FaultClass → String
  | undefinedVariable => "UndefinedVariableError"
  | unknownType => "UnknownTypeError"
  | typeMismatch => "TypeMismatchError"
  | invalidLiteral => "InvalidLiteralError"
  | structural => "StructuralError"
  | unsupported => "UnsupportedConstructError"
  | form => "SyntaxError"
  | input => "IoError"
  | settings => "ConfigError"

/-- The stable number that tools key on. -/
def code : FaultClass → Nat
  | undefinedVariable => 101
  | unknownType => 102
  | typeMismatch => 103
  | invalidLiteral => 104
  | structural => 105
  | unsupported => 106
  | form => 107
  | input => 108
  | settings => 109

end FaultClass

inductive Fault where
  | undefinedVariable (name : String)
  | undefinedRoutine (name : String)
  | unknownKind (word : String)
  /-- The word names a kind, but not one that elements can have. -/
  | elementWord (word : String)
  | elementKind (element : Kind)
  /-- Only containers have an element kind. -/
  | elementOfPlain (kind element : Kind)
  | literalShape (shape : String) (kind : Kind)
  | notIntegral (number : String)
  | referenceFlow (source name target display : String)
  | nothingReturned (routine : String) (kind : Kind) (display : String)
  | manyReturned (routine : String) (kind : Kind) (display : String)
  | returnedKind (routine : String) (kind : Kind) (display : String)
  | argumentsFlow (kind : Kind) (display : String)
  | anonymousReference
  | referenceText (source name : String) (kind : Kind) (display : String)
  | argumentsText (kind : Kind) (display : String)
  | notRoutineText (block : Nat)
  | mapLoopText (name : String)
  /-- A block is reached from its own body, so that its text would have no end. -/
  | endlessNesting (block : Nat)
  | modulePath (path : String)
  | namedAssignment (target : String)
  | unknownSignal (name : String)
  | declaredReturn (routine : String) (kind : Kind)
  | elseWithCondition
  | branchWithoutCondition (keyword : String)
  | unknownBlock (block : Nat)
  | arrayLoopOver (kind : Kind) (display : String)
  | mapLoopOver (kind : Kind) (display : String)
  | callOfBlock (block : Nat) (label : String)
  | closedBlock (block : Nat)
  | nestedFile
  | ownedBlock (child owner : Nat)
  | enclosingBlock (child parent : Nat)
  | dependencyPlace (label : String)
  | packagePlace
  | handlerLabel (label : String)
  | handlerInsideItself
  | fileScope
  | attachedScope (block : Nat)
  | handlerScope
  | rootScope
  | openScopes (depth : Nat) (path : String)
  | noConstruct (line : String) (column : Nat)
  | exitCode (number : String)
  | callDot (rest : String)
  | callName (rest : String)
  | callBrackets (method : String)
  | emptyArgument (arguments : String)
  | branchAlone (keyword : String)
  | emptyChain (receiver : String)
  | notFile (block : Nat)
  | writtenLabel (label : String)
  | writeFailed (path reason : String)
  | settingsUnread (path reason : String)
  | settingsForm (path : String)
  | tabSize (size : Nat)
  | extension (text : String)
  | defaultDependency (reason : String)
  | repeatedDependency (path : String)
  | missingScript (path reason : String)
  | inputPattern (pattern reason : String)
  | unmatchedPattern (pattern : String)
deriving DecidableEq, Repr, Inhabited

namespace Fault

def cls : Fault → FaultClass
  | undefinedVariable _ | undefinedRoutine _ => .undefinedVariable
  | unknownKind _ | elementWord _ | elementKind _ | elementOfPlain _ _ => .unknownType
  | literalShape _ _ | notIntegral _ => .invalidLiteral
  | referenceFlow _ _ _ _ | nothingReturned _ _ _ | manyReturned _ _ _ | returnedKind _ _ _
  | argumentsFlow _ _ | referenceText _ _ _ _ | argumentsText _ _ | declaredReturn _ _
  | arrayLoopOver _ _ | mapLoopOver _ _ => .typeMismatch
  | anonymousReference | notRoutineText _ | endlessNesting _ | namedAssignment _
  | elseWithCondition | branchWithoutCondition _ | unknownBlock _ | callOfBlock _ _
  | closedBlock _ | nestedFile | ownedBlock _ _ | enclosingBlock _ _ | dependencyPlace _
  | packagePlace | handlerLabel _ | handlerInsideItself | fileScope | attachedScope _
  | handlerScope | rootScope | openScopes _ _ | branchAlone _ | notFile _ | writtenLabel _ =>
    .structural
  | mapLoopText _ | unknownSignal _ | noConstruct _ _ | emptyChain _ => .unsupported
  | modulePath _ | exitCode _ | callDot _ | callName _ | callBrackets _ | emptyArgument _ => .form
  | writeFailed _ _ | missingScript _ _ | inputPattern _ _ | unmatchedPattern _ => .input
  | settingsUnread _ _ | settingsForm _ | tabSize _ | extension _ | defaultDependency _
  | repeatedDependency _ => .settings

/-- The part of the program that raises the fault. -/
def issuer : Fault → String
  | undefinedVariable _ => "sealang.scope.resolve"
  | undefinedRoutine _ => "sealang.compiler.call"
  | unknownKind _ => "sealang.types.lookup"
  | elementWord _ => "sealang.types.lookup_template"
  | elementKind _ | elementOfPlain _ _ | anonymousReference => "sealang.ir.value"
  | literalShape _ _ | notIntegral _ => "sealang.ir.render.literal"
  | referenceFlow _ _ _ _ | nothingReturned _ _ _ | manyReturned _ _ _ | returnedKind _ _ _
  | argumentsFlow _ _ => "sealang.ir.value.construct"
  | referenceText _ _ _ _ => "sealang.ir.render.reference"
  | argumentsText _ _ => "sealang.ir.render.argv"
  | notRoutineText _ => "sealang.ir.render.routine"
  | mapLoopText _ => "sealang.ir.render.map_loop"
  | endlessNesting _ => "sealang.ir.render"
  | modulePath _ => "sealang.ir.stmt.module_path"
  | namedAssignment _ => "sealang.ir.stmt.assign"
  | unknownSignal _ => "sealang.ir.stmt.signal"
  | declaredReturn _ _ => "sealang.ir.block.routine"
  | elseWithCondition | branchWithoutCondition _ => "sealang.ir.block.condition"
  | unknownBlock _ => "sealang.ir.arena"
  | arrayLoopOver _ _ => "sealang.ir.arena.array_loop"
  | mapLoopOver _ _ => "sealang.ir.arena.map_loop"
  | callOfBlock _ _ => "sealang.ir.arena.routine_call"
  | closedBlock _ | nestedFile | ownedBlock _ _ | enclosingBlock _ _ | dependencyPlace _
  | packagePlace | handlerLabel _ | handlerInsideItself => "sealang.ir.arena.append"
  | fileScope => "sealang.scope.push_block"
  | attachedScope _ => "sealang.scope.enter"
  | handlerScope => "sealang.scope.enter_signal"
  | rootScope => "sealang.scope.pop"
  | openScopes _ _ => "sealang.scope.finish"
  | noConstruct _ _ => "sealang.syntax.classify"
  | exitCode _ => "sealang.syntax.construct.exit"
  | callDot _ | callName _ | callBrackets _ => "sealang.syntax.chain"
  | emptyArgument _ => "sealang.syntax.chain.split_args"
  | branchAlone _ => "sealang.compiler.condition"
  | emptyChain _ => "sealang.compiler.method"
  | notFile _ => "sealang.emit.text"
  | writtenLabel _ | writeFailed _ _ => "sealang.emit.write"
  | settingsUnread _ _ | settingsForm _ | tabSize _ | extension _ | defaultDependency _
  | repeatedDependency _ => "sealang.config"
  | missingScript _ _ => "sealang.script"
  | inputPattern _ _ | unmatchedPattern _ => "sealang.cli.inputs"

def noSuchKind (what : String) : String :=
  s!"Primitive type {what} doesn't exist!"

def message : Fault → String
  | undefinedVariable name | undefinedRoutine name => s!"Undefined variable {name}"
  | unknownKind word => noSuchKind word
  | elementWord word => noSuchKind s!"{word} (not allowed as an element template)"
  | elementKind element => noSuchKind s!"{element.name} (not allowed as an element template)"
  | elementOfPlain kind element => noSuchKind s!"{kind.surface}<{element.surface}>"
  | literalShape shape kind =>
    s!"A {shape} literal cannot initialize a value of type {kind.surface}"
  | notIntegral number => s!"{number} is not an integer"
  | referenceFlow source name target display =>
    s!"Cannot assign {source} {name} to variable {target}.{display}"
  | nothingReturned routine kind display =>
    s!"Cannot assign undefined value from {routine} to variable {kind.name}.{display}"
  | manyReturned routine kind display =>
    s!"Cannot assign multiple values from {routine} to variable {kind.name}.{display}"
  | returnedKind routine kind display =>
    s!"Invalid returned type from {routine} for variable {kind.name}.{display}"
  | argumentsFlow kind display =>
    s!"Command line arguments only fill an Array or Array<String>, not {kind.name}.{display}"
  | anonymousReference => "Anonymous value cannot be referenced by name"
  | referenceText source name kind display =>
    s!"Cannot assign {source} {name} to variable {kind.name}.{display}"
  | argumentsText kind display =>
    s!"Command line arguments cannot initialize {kind.name}.{display}"
  | notRoutineText block => s!"Block #{block} is not a routine"
  | mapLoopText name => s!"Looping over map {name} is not implemented yet"
  | endlessNesting block => s!"Block #{block} is nested in itself"
  | modulePath path => s!"Invalid module path '{path}'"
  | namedAssignment target => s!"Assigned value for {target} must be anonymous"
  | unknownSignal name => s!"Signal {name} is not supported"
  | declaredReturn routine kind =>
    s!"Routine {routine} is declared to return {kind.name} but its return does not match"
  | elseWithCondition => "An else branch takes no condition"
  | branchWithoutCondition keyword => s!"A {keyword} branch needs a condition"
  | unknownBlock block => s!"Unknown block #{block}"
  | arrayLoopOver kind display =>
    s!"Cannot loop over {kind.name} {display}: only arrays can be iterated by index"
  | mapLoopOver kind display => s!"Cannot loop over {kind.name} {display} as a map"
  | callOfBlock block label => s!"Block #{block} is a {label}, not a routine"
  | closedBlock block => s!"Block #{block} is closed. Impossible to add new element!"
  | nestedFile => "A file block cannot be nested"
  | ownedBlock child owner => s!"Block #{child} already belongs to block #{owner}"
  | enclosingBlock child parent => s!"Block #{child} is an ancestor of block #{parent}"
  | dependencyPlace label => s!"Cannot add a dependency to a {label} block"
  | packagePlace => "A package can only be declared at the top of a module file"
  | handlerLabel label => s!"Signal handler must be a routine, got a {label}"
  | handlerInsideItself => "A signal handler cannot be installed inside itself"
  | fileScope => "A file block cannot open a nested scope"
  | attachedScope block => s!"Block #{block} is already attached and cannot open a scope"
  | handlerScope => "A signal handler scope needs a routine block"
  | rootScope => "Cannot close the root scope: no scope is open"
  | openScopes depth path => s!"{depth} scope(s) still open at end of input (innermost {path})"
  | noConstruct line column => s!"No construct matches '{line}' (expected near column {column})"
  | exitCode number => s!"Exit code {number} is not an integer"
  | callDot rest => s!"Expected '.' before method call at '{rest}'"
  | callName rest => s!"Expected a method name at '{rest}'"
  | callBrackets method => s!"Unbalanced parentheses in call to {method}"
  | emptyArgument arguments => s!"Empty argument in '({arguments})'"
  | branchAlone keyword => s!"{keyword} without a preceding if"
  | emptyChain receiver => s!"Empty method chain on {receiver}"
  | notFile block => s!"Block #{block} is not a file"
  | writtenLabel label => s!"Cannot write a {label} block as a file"
  | writeFailed path reason => s!"Failed to write {path}: {reason}"
  | settingsUnread path reason => s!"read {path}: {reason}"
  | settingsForm path => s!"parse {path}"
  | tabSize size => s!"tab_size must be between 1 and 8, got {size}"
  | extension text => s!"extension '{text}' must be a bare file extension"
  | defaultDependency reason => s!"default_dependencies: {reason}"
  | repeatedDependency path => s!"duplicate default dependency '{path}'"
  | missingScript path reason => s!"Missing script at {Text.shown path}: {reason}"
  | inputPattern pattern reason => s!"Invalid glob pattern '{pattern}': {reason}"
  | unmatchedPattern pattern => s!"No input matches '{pattern}'"

def text (f : Fault) : String :=
  s!"{f.cls.name}: {f.message}"

end Fault

end LineScript
