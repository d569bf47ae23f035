import LineScript.Fault
import LineScript.Line.Construct
import LineScript.Line.Word

/-!
# Grammar of a line

The phrases that make up the constructs. Literals and calls nest; each level takes at least one
character, so that the number of characters bounds the depth.
-/
namespace LineScript.Line

open Phrase

def typeName : Phrase TypeName := named do
  let base ← name
  let element ← optional do
    symbol "<"
    let element ← name
    symbol ">"
    return element
  return ⟨base, element⟩

def truth : Phrase Bool :=
  named (token fun s =>
    match splitKeyword "true".toList s with
    | some ((), rest) => some (true, rest)
    | none => (splitKeyword "false".toList s).map fun ((), rest) => (false, rest))

def undefinedWord : Phrase Unit :=
  named (token fun s => splitKeyword "undef".toList s <|> splitKeyword "null".toList s)

/-- Entries with commas in between; a comma may follow the last. -/
def entries {α : Type} (p : Phrase α) : Phrase (List α) := do
  let all ← optional do
    let all ← commaSeparated p
    let _ ← optional (symbol ",")
    return all
  return all.getD []

def listOf (item : Phrase Literal) : Phrase (List Literal) := named do
  symbol "["
  let items ← entries item
  symbol "]"
  return items

def field (item : Phrase Literal) : Phrase (String × Literal) := named do
  let key ← string <|> name
  symbol ":" <|> symbol "=>"
  let value ← item
  return (key, value)

def objectOf (item : Phrase Literal) : Phrase (List (String × Literal)) := named do
  symbol "\x7b"
  let fields ← entries (field item)
  symbol "\x7d"
  return fields

/-- A literal in which lists and objects nest less deep than the bound. -/
def literalWithin : Nat → Phrase Literal
  | 0 => absent
  | depth + 1 => named
    ((Literal.text <$> string) <|> (Literal.number <$> number) <|> (Literal.truth <$> truth) <|>
      ((fun () => Literal.undefined) <$> undefinedWord) <|>
      (Literal.list <$> listOf (literalWithin depth)) <|>
      (Literal.object <$> objectOf (literalWithin depth)))

def literal : Phrase Literal :=
  fun s => literalWithin (s.length + 1) s

def commandLine : Phrase Expression := named do
  keyword "argv"
  symbol "("
  symbol ")"
  return .arguments

def methodValue : Phrase (String × String) := named do
  let receiver ← name
  let calls ← chain
  return (receiver, calls)

def routineCall (argument : Phrase Expression) : Phrase Expression := named do
  let routine ← name
  symbol "("
  let arguments ← optional (commaSeparated argument)
  symbol ")"
  return .routine routine (arguments.getD [])

def variableName : Phrase Expression :=
  named (Expression.variable <$> name)

def valueWithin : Nat → Phrase Expression
  | 0 => absent
  | depth + 1 => named
    (commandLine <|>
      ((fun (receiver, calls) => Expression.method receiver calls) <$> methodValue) <|>
      routineCall (valueWithin depth) <|> (Expression.literal <$> literal) <|> variableName)

def value : Phrase Expression :=
  fun s => valueWithin (s.length + 1) s

def importedNames : Phrase (Option (List String)) :=
  named ((fun () => none) <$> symbol "*") <|>
    named do
      symbol "\x7b"
      let names ← commaSeparated name
      symbol "\x7d"
      return some names

def importLine : Phrase Construct := named do
  keyword "import"
  let names ← importedNames
  keyword "from"
  let path ← modulePath
  return .importModule path names

def packageLine : Phrase Construct := named do
  keyword "package"
  let path ← modulePath
  return .package path

def parameter : Phrase Parameter := named
  ((do
    let type ← typeName
    let parameter ← name
    return ⟨parameter, some type⟩) <|>
  (fun parameter => ⟨parameter, none⟩) <$> name)

def parameters : Phrase (List Parameter) :=
  named (commaSeparated parameter)

def returns : Phrase TypeName := named do
  symbol "->"
  typeName

def routineLine : Phrase Construct := named do
  keyword "sub"
  let routine ← optional name
  symbol "("
  let parameters ← optional parameters
  symbol ")"
  let returned ← optional returns
  symbol "\x7b"
  return .routine routine (parameters.getD []) returned

def returnLine : Phrase Construct := named do
  keyword "return"
  let values ← optional (commaSeparated value)
  return .giveBack (values.getD [])

def ifLine : Phrase Construct := named do
  keyword "if"
  let tested ← value
  symbol "\x7b"
  return .condition .ifTrue (some tested)

def elseIfLine : Phrase Construct := named do
  keyword "elif"
  let tested ← value
  symbol "\x7b"
  return .condition .elseIf (some tested)

def elseLine : Phrase Construct := named do
  keyword "else"
  symbol "\x7b"
  return .condition .otherwise none

def loopLine : Phrase Construct := named do
  keyword "for"
  let element ← name
  keyword "in"
  let iterable ← name
  symbol "\x7b"
  return .loop element iterable

def tryLine : Phrase Construct := named do
  keyword "try"
  symbol "\x7b"
  return .attempt

def signalLine : Phrase Construct := named do
  keyword "signal"
  let signal ← name
  let parameter ← optional do
    symbol "("
    let parameter ← optional name
    symbol ")"
    return parameter
  symbol "\x7b"
  return .signal signal (parameter.getD none)

/-- An operand with or without parentheses, or none at all. Empty parentheses are no operand. -/
def operand {α : Type} (p : Phrase α) : Phrase (Option α) := do
  let operand ← optional
    ((do
      symbol "("
      let operand ← optional p
      symbol ")"
      return operand) <|>
    some <$> p)
  return operand.getD none

def printLine : Phrase Construct := named do
  keyword "print"
  let shown ← operand value
  return .print shown

/-- The value of a spelled integer that fits into 32 bits. -/
def exitCode? (spelling : String) : Option Int :=
  if Literal.isIntegralText spelling.toList then
    let code : Int :=
      match spelling.toList with
      | '-' :: digits => -(Nat.ofDigitChars 10 digits 0 : Nat)
      | digits => (Nat.ofDigitChars 10 digits 0 : Nat)
    if -2147483648 ≤ code ∧ code ≤ 2147483647 then some code else none
  else none

def exitLine : Phrase (Except Fault Construct) := named do
  keyword "exit"
  let spelling ← operand number
  match spelling with
  | none => return .ok (.exit 0)
  | some spelling =>
    match exitCode? spelling with
    | some code => return .ok (.exit code)
    | none => return .error (.exitCode spelling)

def openLine : Phrase Construct :=
  named ((fun () => .openScope) <$> symbol "\x7b")

def closeLine : Phrase Construct :=
  named ((fun () => .closeScope) <$> symbol "\x7d")

def declarationLine : Phrase Construct := named do
  let type ← typeName
  let declared ← name
  symbol "="
  let value ← value
  return .declare type declared value

def assignmentLine : Phrase Construct := named do
  let assigned ← name
  symbol "="
  let value ← value
  return .assign assigned value

def methodLine : Phrase Construct := named do
  let receiver ← name
  let calls ← chain
  return .methodChain receiver calls

/-- The constructs in the order in which they are tried. -/
def statement : Phrase (Except Fault Construct) :=
  (.ok <$> (importLine <|> packageLine <|> routineLine <|> returnLine <|> ifLine <|> elseIfLine <|>
    elseLine <|> loopLine <|> tryLine <|> signalLine <|> printLine)) <|>
  exitLine <|>
  (.ok <$> (openLine <|> closeLine <|> declarationLine <|> assignmentLine <|> methodLine))

def endOfLine : Phrase Unit :=
  named fun s => if s.isEmpty then ⟨some ((), s), none⟩ else ⟨none, none⟩

def wholeLine : Phrase (Option (Except Fault Construct)) := do
  let construct ← optional statement
  endOfLine
  return construct

end LineScript.Line
