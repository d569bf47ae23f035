import LineScript.Compile
import LineScript.Proofs.Edits
import LineScript.Proofs.Nesting

/-!
# What a line does to the open scopes

A line that is applied without a fault opens one scope, closes one, or stays in the scopes that
are open. Each of the three is a relation between the scopes before and after, with everything
the line has checked and made; the log is the only part that they leave open.
-/
namespace LineScript

namespace Scopes

/-- An element that a line adds to the innermost block, with what it is made from. -/
inductive Adds (s : Scopes) : Construct → Element → Prop where
  | blank : Adds s .blank (.text "\n")
  | call {name chain : String} {receiver : Variable} {invocation : Invocation}
      {arguments : List String} (hreceiver : s.requireVariable name = .ok receiver)
      (hmem : Except.ok invocation ∈ (Chain.ofText chain).results.1)
      (harguments : invocation.argumentList = .ok arguments) :
      Adds s (.methodChain name chain)
        (.method (.on receiver invocation.method (arguments.map s.methodArgument)))
  | assign {name : String} {expression : Expression} {target value : Value} {source : Source}
      {assignment : Assignment} (htarget : s.require name = .ok target)
      (hsource : s.source expression = .ok source)
      (hvalue : Value.make target.kind none target.element source = .ok value)
      (hassignment : Assignment.make target value = .ok assignment) :
      Adds s (.assign name expression) (.statement (.assign assignment))
  | giveBack {expressions : List Expression} {values : List ReturnedValue}
      (hvalues : expressions.mapM s.returnedValue = .ok values) :
      Adds s (.giveBack expressions) (.statement (.giveBack (.ofValues values)))
  | print {expression : Option Expression} {message : Message}
      (hmessage : s.message expression = .ok message) :
      Adds s (.print expression) (.statement (.print ⟨message, true⟩))
  | exit (code : Int) : Adds s (.exit code) (.statement (.exit code))

/-- A move that neither opens nor closes a scope. -/
inductive Stays (s : Scopes) : Construct → Scopes → Prop where
  | note (c : Construct) (log : List LogEntry) : Stays s c { s with log := log }
  | add {c : Construct} {element : Element} {store : Store} (log : List LogEntry)
      (hadds : s.Adds c element)
      (happend : Succeeds (Edit.append s.current.block element) s.store () store) :
      Stays s c { s with store := store, log := log }
  | declare {type : TypeName} {name : String} {expression : Expression} {kind : Kind}
      {element : Option Kind} {source : Source} {value : Value} {store : Store}
      (log : List LogEntry) (hkind : Session.kindOf type = .ok (kind, element))
      (hsource : s.source expression = .ok source)
      (hvalue : Value.make kind (some name) element source = .ok value)
      (happend : Succeeds (Edit.append s.current.block (.value value)) s.store () store) :
      Stays s (.declare type name expression)
        { s with
          store := store
          current := { s.current with values := (name, value) :: s.current.values }
          log := log }
  | hoist {path : String} {symbols : Option (List String)} {d : Dependency} {store : Store}
      (log : List LogEntry) (hd : Dependency.make path symbols = .ok d)
      (happend : Succeeds (Edit.append s.file (.statement (.dependency d))) s.store () store) :
      Stays s (.importModule path symbols) { s with store := store, log := log }
  | package {path module : String} {store : Store} (log : List LogEntry)
      (hmodule : modulePath path = .ok module)
      (happend : Succeeds (Edit.append s.file (.statement (.package module))) s.store () store) :
      Stays s (.package path) { s with store := store, log := log }

/-- The blocks, names and bindings that come with a new scope. The last block made is the block
of the scope. -/
structure Opened where
  made : List Block
  fresh : Nat
  routines : List (String × BlockId)
  merge : Merge
  values : List (String × Value)

def opened (s : Scopes) (o : Opened) (log : List LogEntry) : Scopes where
  store := s.store.extend o.made o.fresh
  file := s.file
  current :=
    ⟨s.current.path ++ [s.current.children], s.store.size + o.made.length - 1, o.values, [], 0,
      o.merge⟩
  outer :=
    { s.current with
      routines := o.routines ++ s.current.routines
      children := s.current.children + 1 } :: s.outer
  log := log

/-- The block of a new routine, which starts by binding its parameters. -/
def routineBlock (name : Option String) (parameters : List BoundParameter) (mode : BindingMode)
    (declared : Option Kind) : Block where
  kind := .routine ⟨name, parameters.map BoundParameter.name, mode, declared, none⟩
  elements := if parameters.isEmpty then [] else [.statement (.binding ⟨parameters, mode⟩)]
  closed := false
  root := none

/-- What a line brings along that opens a scope. -/
inductive Opening (s : Scopes) : Construct → Opened → Prop where
  | plain : Opening s .openScope ⟨[Block.ofKind .plain], s.store.fresh, [], .block, []⟩
  | routine {name : Option String} {parameters : List Parameter} {returns : Option TypeName}
      {declared : Option Kind} {bound : List (BoundParameter × Value)}
      (hdeclared : returns.mapM (fun type => Kind.ofText type.name) = .ok declared)
      (hbound : parameters.mapM Session.parameterValue = .ok bound) :
      Opening s (.routine name parameters returns)
        ⟨[routineBlock name (bound.map Prod.fst) .destructure declared], s.store.fresh,
          name.toList.map fun name => (name, s.store.size), .block,
          (bound.map fun p => (p.1.name, p.2)).reverse⟩
  | condition {branch : Branch} {expression : Option Expression} {test : Option Test}
      {condition : Condition} (htest : s.test expression = .ok test)
      (hfollows : branch ≠ .ifTrue → s.followsBranch = .ok true)
      (hcondition : Condition.make branch test = .ok condition) :
      Opening s (.condition branch expression)
        ⟨[Block.ofKind (.condition condition)], s.store.fresh, [], .block, []⟩
  | mapLoop {element iterable : String} {collection : Value} {looped : Variable}
      (hcollection : s.require iterable = .ok collection) (hkind : collection.kind = .map)
      (hlooped : collection.toVariable = .ok looped) :
      Opening s (.loop element iterable)
        ⟨[Block.ofKind (.mapLoop ⟨looped, element⟩)], s.store.fresh, [], .block,
          [(element, .placeholder element (collection.element.getD .scalar))]⟩
  | arrayLoop {element iterable : String} {collection counter length item : Value}
      {looped counted : Variable} (hcollection : s.require iterable = .ok collection)
      (hkind : collection.kind = .array) (hlooped : collection.toVariable = .ok looped)
      (hcounter : Value.make .integer (some s!"__i{s.store.fresh}") none
        (.literal (.ofInt 0)) = .ok counter)
      (hlength : Value.make .scalar (some s!"__len{s.store.fresh + 1}") none
        (.method (.on looped "size" [])) = .ok length)
      (hcounted : counter.toVariable = .ok counted)
      (hitem : Value.make (collection.element.getD .scalar) (some element) none
        (.method (.on looped "get" [.bound counted])) = .ok item) :
      Opening s (.loop element iterable)
        ⟨[Block.ofKind (.arrayLoop ⟨looped, counter, length, item⟩)], s.store.fresh + 2, [],
          .block, [(element, item)]⟩
  | attempt {condition : Condition}
      (hcondition : Condition.make .ifTrue (some (.raw "$@")) = .ok condition) :
      Opening s .attempt
        ⟨[{ kind := .condition condition
            elements := [.statement (.print ⟨.raw "$@", true⟩)]
            closed := false
            root := some (s.store.size + 1) },
          Block.ofKind (.evaluation s.store.size)], s.store.fresh, [], .block, []⟩
  | signal {name : String} {parameter : Option String} {signal : Signal}
      (hsignal : Signal.ofText name = .ok signal) :
      Opening s (.signal name parameter)
        ⟨[routineBlock none (parameter.toList.map fun p => ⟨p, none⟩) .shift none],
          s.store.fresh, [], .handler signal,
          parameter.toList.map fun p => (p, .placeholder p .scalar)⟩

/-- The innermost scope is closed and its block becomes part of the block around it. -/
inductive Closes (s : Scopes) : Scopes → Prop where
  | close {parent : Scope} {outer : List Scope} {store : Store} (log : List LogEntry)
      (houter : s.outer = parent :: outer)
      (happend : Succeeds (Edit.append parent.block (Session.mergedElement s.current)) s.store ()
        store) :
      Closes s { s with store := store, current := parent, outer := outer, log := log }

/-- A line that is applied without a fault. -/
inductive Applied (s : Scopes) (c : Construct) : Scopes → Prop where
  | opens {o : Opened} (log : List LogEntry) (hopens : c.opens = true)
      (hopening : s.Opening c o) : Applied s c (s.opened o log)
  | closes {t : Scopes} (hcloses : c.closes = true) (h : s.Closes t) : Applied s c t
  | stays {t : Scopes} (hopens : c.opens = false) (hcloses : c.closes = false)
      (h : Relation.ReflTransGen (fun s t => Stays s c t) s t) : Applied s c t

end Scopes

end LineScript
