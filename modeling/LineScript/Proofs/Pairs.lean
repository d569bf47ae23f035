import LineScript.Line.Classify

/-!
# Reading a line in two steps

The grammar turns a line into pairs. A pair is a rule with the place where it was found, its text
and the pairs of its parts. The construct is then extracted from the pairs: the parts of a pair are
taken one after the other, keywords left out, and the place of a part alone tells what it is. A pair
that is missing there, or that is of another rule, is a defect.
-/
namespace LineScript.Line

/-- The rules of the grammar that leave a pair. -/
inductive Rule where
  | line
  | endOfLine
  | keyword (text : String)
  | name
  | modulePath
  | chain
  | number
  | string
  | body
  | truth
  | undefined
  | typeName
  | list
  | field
  | object
  | literal
  | commandLine
  | methodValue
  | routineCall
  | reference
  | value
  | everything
  | importedNames
  | importLine
  | packageLine
  | parameter
  | parameters
  | returns
  | routineLine
  | returnLine
  | ifLine
  | elseIfLine
  | elseLine
  | loopLine
  | tryLine
  | signalLine
  | printLine
  | exitLine
  | openLine
  | closeLine
  | declarationLine
  | assignmentLine
  | methodLine
deriving DecidableEq, Repr

def Rule.isKeyword : Rule → Bool
  | keyword _ => true
  | _ => false

structure Pair where
  rule : Rule
  /-- The number of characters that are left in the line where the pair starts. -/
  left : Nat
  /-- The words of the pair. -/
  text : String
  parts : List Pair

/-- The parts that are no keywords. -/
def Pair.data (p : Pair) : List Pair :=
  p.parts.filter fun part => !part.rule.isKeyword

/-- What keeps pairs from being a construct. -/
inductive Defect where
  /-- The line itself is at fault. -/
  | fault (content : Fault)
  | missing (within : Rule)
  | unexpected (found within : Rule) (left : Nat)
  | malformedParameter

namespace Pair

/-- The next of the parts, and those after it. -/
def fetch (within : Rule) : List Pair → Except Defect (Pair × List Pair)
  | [] => .error (.missing within)
  | p :: rest => .ok (p, rest)

def typeName (p : Pair) : Except Defect TypeName := do
  let (base, rest) ← fetch .typeName p.data
  return ⟨base.text, rest.head?.map Pair.text⟩

def parameter (p : Pair) : Except Defect Parameter :=
  match p.data with
  | [name] => return ⟨name.text, none⟩
  | [type, name] => do return ⟨name.text, some (← type.typeName)⟩
  | _ => .error .malformedParameter

/-- A quoted text, its escapes resolved. -/
def quoted (p : Pair) : Except Defect String := do
  let (body, _) ← fetch .string p.data
  return String.ofList (Perl.unescapeChars body.text.toList)

def key (p : Pair) : Except Defect String :=
  if p.rule = .string then p.quoted else .ok p.text

mutual

def literal : Pair → Except Defect Literal
  | ⟨.literal, _, _, parts⟩ => onlyLiteral parts
  | ⟨.string, left, text, parts⟩ => Literal.text <$> quoted ⟨.string, left, text, parts⟩
  | ⟨.number, _, text, _⟩ => .ok (.number text)
  | ⟨.truth, _, text, _⟩ => .ok (.truth (text == "true"))
  | ⟨.undefined, _, _, _⟩ => .ok .undefined
  | ⟨.list, _, _, parts⟩ => Literal.list <$> literals parts
  | ⟨.object, _, _, parts⟩ => Literal.object <$> fields parts
  | ⟨rule, left, _, _⟩ => .error (.unexpected rule .literal left)

/-- The literal inside a pair for literals. It is no such pair again. -/
def onlyLiteral : List Pair → Except Defect Literal
  | [] => .error (.missing .literal)
  | p :: rest =>
    if p.rule.isKeyword then onlyLiteral rest
    else if p.rule = .literal then .error (.unexpected .literal .literal p.left)
    else literal p

def literals : List Pair → Except Defect (List Literal)
  | [] => .ok []
  | p :: rest =>
    if p.rule.isKeyword then literals rest
    else do return (← literal p) :: (← literals rest)

def fields : List Pair → Except Defect (List (String × Literal))
  | [] => .ok []
  | p :: rest =>
    if p.rule.isKeyword then fields rest
    else do return (← field p) :: (← fields rest)

def field : Pair → Except Defect (String × Literal)
  | ⟨_, _, _, parts⟩ => fieldKey parts

def fieldKey : List Pair → Except Defect (String × Literal)
  | [] => .error (.missing .field)
  | p :: rest =>
    if p.rule.isKeyword then fieldKey rest
    else do
      let key ← p.key
      return (key, ← fieldValue rest)

def fieldValue : List Pair → Except Defect Literal
  | [] => .error (.missing .field)
  | p :: rest => if p.rule.isKeyword then fieldValue rest else literal p

end

/-- Two words, the receiver of method calls and the calls. -/
def receiverAndCalls (within : Rule) (parts : List Pair) : Except Defect (String × String) := do
  let (receiver, rest) ← fetch within parts
  let (calls, _) ← fetch within rest
  return (receiver.text, calls.text)

mutual

def value : Pair → Except Defect Expression
  | ⟨.value, _, _, parts⟩ => onlyValue parts
  | ⟨.literal, left, text, parts⟩ => Expression.literal <$> literal ⟨.literal, left, text, parts⟩
  | ⟨.commandLine, _, _, _⟩ => .ok .arguments
  | ⟨.reference, _, text, _⟩ => .ok (.variable (Text.trim text))
  | ⟨.routineCall, _, _, parts⟩ => routineCall parts
  | ⟨.methodValue, left, text, parts⟩ => do
    let (receiver, calls) ←
      receiverAndCalls .methodValue (Pair.data ⟨.methodValue, left, text, parts⟩)
    return .method receiver calls
  | ⟨rule, left, _, _⟩ => .error (.unexpected rule .value left)

/-- The value inside a pair for values. It is no such pair again. -/
def onlyValue : List Pair → Except Defect Expression
  | [] => .error (.missing .value)
  | p :: rest =>
    if p.rule.isKeyword then onlyValue rest
    else if p.rule = .value then .error (.unexpected .value .value p.left)
    else value p

def routineCall : List Pair → Except Defect Expression
  | [] => .error (.missing .routineCall)
  | p :: rest =>
    if p.rule.isKeyword then routineCall rest
    else do return .routine p.text (← values rest)

def values : List Pair → Except Defect (List Expression)
  | [] => .ok []
  | p :: rest =>
    if p.rule.isKeyword then values rest
    else do return (← value p) :: (← values rest)

end

/-- The names of an import, or none for all names. -/
def importedNames (within : Rule) (p : Pair) : Except Defect (Option (List String)) :=
  match p.rule with
  | .everything => .ok none
  | .importedNames => .ok (some (p.data.map Pair.text))
  | other => .error (.unexpected other within p.left)

/-- What is known of a routine after some of its parts. -/
structure RoutineParts where
  name : Option String
  parameters : List Parameter
  returns : Option TypeName

def RoutineParts.add (known : RoutineParts) (p : Pair) : Except Defect RoutineParts :=
  match p.rule with
  | .name => .ok { known with name := some p.text }
  | .parameters => do
    return { known with parameters := known.parameters ++ (← p.data.mapM parameter) }
  | .returns => do
    let (type, _) ← fetch .returns p.data
    return { known with returns := some (← type.typeName) }
  | other => .error (.unexpected other .routineLine p.left)

/-- The construct of a statement. -/
def construct (p : Pair) : Except Defect Construct :=
  match p.rule with
  | .openLine => .ok .openScope
  | .closeLine => .ok .closeScope
  | .importLine => do
    let (names, rest) ← fetch .importLine p.data
    let (path, _) ← fetch .importLine rest
    return .importModule path.text (← importedNames .importLine names)
  | .packageLine => do
    let (path, _) ← fetch .packageLine p.data
    return .package path.text
  | .routineLine => do
    let known ← p.data.foldlM RoutineParts.add ⟨none, [], none⟩
    return .routine known.name known.parameters known.returns
  | .returnLine => .giveBack <$> p.data.mapM value
  | .ifLine => do
    let (tested, _) ← fetch .ifLine p.data
    return .condition .ifTrue (some (← tested.value))
  | .elseIfLine => do
    let (tested, _) ← fetch .elseIfLine p.data
    return .condition .elseIf (some (← tested.value))
  | .elseLine => .ok (.condition .otherwise none)
  | .loopLine => do
    let (element, rest) ← fetch .loopLine p.data
    let (iterable, _) ← fetch .loopLine rest
    return .loop element.text iterable.text
  | .tryLine => .ok .attempt
  | .signalLine => do
    let (signal, rest) ← fetch .signalLine p.data
    return .signal signal.text (rest.head?.map Pair.text)
  | .printLine => .print <$> p.data.head?.mapM value
  | .exitLine =>
    match p.data with
    | [] => .ok (.exit 0)
    | number :: _ =>
      match exitCode? number.text with
      | some code => .ok (.exit code)
      | none => .error (.fault (.exitCode number.text))
  | .declarationLine => do
    let (type, rest) ← fetch .declarationLine p.data
    let type ← type.typeName
    let (name, rest) ← fetch .declarationLine rest
    let (given, _) ← fetch .declarationLine rest
    return .declare type name.text (← given.value)
  | .assignmentLine => do
    let (name, rest) ← fetch .assignmentLine p.data
    let (given, _) ← fetch .assignmentLine rest
    return .assign name.text (← given.value)
  | .methodLine => do
    let (receiver, calls) ← receiverAndCalls .methodLine p.data
    return .methodChain receiver calls
  | other => .error (.unexpected other .line p.left)

/-- The pair of the statement that a line holds. -/
def statement? (p : Pair) : Option Pair :=
  p.parts.find? fun part => part.rule ≠ .endOfLine

end Pair

namespace Tree

open Phrase

/-- A word, which has no parts. -/
def word (rule : Rule) (read : List Char → Option (List Char × List Char)) :
    Phrase (List Pair) :=
  named (token fun s => (read s).map fun (chars, rest) =>
    ([⟨rule, s.length, String.ofList chars, []⟩], rest))

/-- The pair of a rule, around the pairs of its parts. -/
def pairOf (rule : Rule) (p : Phrase (List Pair)) : Phrase (List Pair) := fun s =>
  andThen p (fun parts => done [⟨rule, s.length, String.join (parts.map Pair.text), parts⟩]) s

def node (rule : Rule) (p : Phrase (List Pair)) : Phrase (List Pair) :=
  named (pairOf rule p)

def maybe (p : Phrase (List Pair)) : Phrase (List Pair) :=
  (fun found => found.getD []) <$> optional p

def name : Phrase (List Pair) :=
  word .name Text.splitName

def modulePath : Phrase (List Pair) :=
  word .modulePath Text.splitModulePath

def number : Phrase (List Pair) :=
  word .number splitNumber

def chain : Phrase (List Pair) :=
  word .chain splitChain

def keyword (text : String) : Phrase (List Pair) :=
  word (.keyword text) fun s => (splitKeyword text.toList s).map fun ((), rest) =>
    (text.toList, rest)

/-- The marks of a string stand around the pair of its body. -/
def string : Phrase (List Pair) :=
  named (token fun s => (splitString s).map fun (body, rest) =>
    ([⟨.string, s.length, String.ofList body,
      [⟨.body, s.length - 1, String.ofList body, []⟩]⟩], rest))

def truth : Phrase (List Pair) :=
  word .truth fun s =>
    match splitKeyword "true".toList s with
    | some ((), rest) => some ("true".toList, rest)
    | none => (splitKeyword "false".toList s).map fun ((), rest) => ("false".toList, rest)

def undefinedWord : Phrase (List Pair) :=
  word .undefined fun s =>
    match splitKeyword "undef".toList s with
    | some ((), rest) => some ("undef".toList, rest)
    | none => (splitKeyword "null".toList s).map fun ((), rest) => ("null".toList, rest)

def typeName : Phrase (List Pair) := node .typeName do
  let base ← name
  let element ← maybe do
    symbol "<"
    let element ← name
    symbol ">"
    return element
  return base ++ element

def listOf (item : Phrase (List Pair)) : Phrase (List Pair) := node .list do
  symbol "["
  let items ← entries item
  symbol "]"
  return items.flatten

def field (item : Phrase (List Pair)) : Phrase (List Pair) := node .field do
  let key ← string <|> name
  symbol ":" <|> symbol "=>"
  let value ← item
  return key ++ value

def objectOf (item : Phrase (List Pair)) : Phrase (List Pair) := node .object do
  symbol "\x7b"
  let fields ← entries (field item)
  symbol "\x7d"
  return fields.flatten

def literalWithin : Nat → Phrase (List Pair)
  | 0 => absent
  | depth + 1 => node .literal
    (string <|> number <|> truth <|> undefinedWord <|> listOf (literalWithin depth) <|>
      objectOf (literalWithin depth))

def literal : Phrase (List Pair) :=
  fun s => literalWithin (s.length + 1) s

def commandLine : Phrase (List Pair) := node .commandLine do
  let word ← keyword "argv"
  symbol "("
  symbol ")"
  return word

def methodValue : Phrase (List Pair) := node .methodValue do
  let receiver ← name
  let calls ← chain
  return receiver ++ calls

def routineCall (argument : Phrase (List Pair)) : Phrase (List Pair) := node .routineCall do
  let routine ← name
  symbol "("
  let arguments ← optional (commaSeparated argument)
  symbol ")"
  return routine ++ (arguments.getD []).flatten

def variableName : Phrase (List Pair) :=
  node .reference name

def valueWithin : Nat → Phrase (List Pair)
  | 0 => absent
  | depth + 1 => node .value
    (commandLine <|> methodValue <|> routineCall (valueWithin depth) <|> literal <|> variableName)

def value : Phrase (List Pair) :=
  fun s => valueWithin (s.length + 1) s

def importedNames : Phrase (List Pair) :=
  node .everything ((fun () => []) <$> symbol "*") <|>
    node .importedNames do
      symbol "\x7b"
      let names ← commaSeparated name
      symbol "\x7d"
      return names.flatten

def importLine : Phrase (List Pair) := node .importLine do
  let word ← keyword "import"
  let names ← importedNames
  let second ← keyword "from"
  let path ← modulePath
  return word ++ names ++ second ++ path

def packageLine : Phrase (List Pair) := node .packageLine do
  let word ← keyword "package"
  let path ← modulePath
  return word ++ path

def parameter : Phrase (List Pair) := node .parameter
  ((do
    let type ← typeName
    let parameter ← name
    return type ++ parameter) <|> name)

def parameters : Phrase (List Pair) :=
  node .parameters (List.flatten <$> commaSeparated parameter)

def returns : Phrase (List Pair) := node .returns do
  symbol "->"
  typeName

def routineLine : Phrase (List Pair) := node .routineLine do
  let word ← keyword "sub"
  let routine ← maybe name
  symbol "("
  let parameters ← maybe parameters
  symbol ")"
  let returned ← maybe returns
  symbol "\x7b"
  return word ++ routine ++ parameters ++ returned

def returnLine : Phrase (List Pair) := node .returnLine do
  let word ← keyword "return"
  let values ← optional (commaSeparated value)
  return word ++ (values.getD []).flatten

/-- A branch with a test. -/
def testedLine (rule : Rule) (text : String) : Phrase (List Pair) := node rule do
  let word ← keyword text
  let tested ← value
  symbol "\x7b"
  return word ++ tested

/-- A line with nothing but a keyword before its brace. -/
def bareLine (rule : Rule) (text : String) : Phrase (List Pair) := node rule do
  let word ← keyword text
  symbol "\x7b"
  return word

def loopLine : Phrase (List Pair) := node .loopLine do
  let word ← keyword "for"
  let element ← name
  let second ← keyword "in"
  let iterable ← name
  symbol "\x7b"
  return word ++ element ++ second ++ iterable

def signalLine : Phrase (List Pair) := node .signalLine do
  let word ← keyword "signal"
  let signal ← name
  let parameter ← maybe do
    symbol "("
    let parameter ← maybe name
    symbol ")"
    return parameter
  symbol "\x7b"
  return word ++ signal ++ parameter

def printLine : Phrase (List Pair) := node .printLine do
  let word ← keyword "print"
  let shown ← operand value
  return word ++ shown.getD []

def exitLine : Phrase (List Pair) := node .exitLine do
  let word ← keyword "exit"
  let spelling ← operand number
  return word ++ spelling.getD []

/-- A line that is one brace. -/
def braceLine (rule : Rule) (brace : String) : Phrase (List Pair) :=
  node rule ((fun () => []) <$> symbol brace)

def declarationLine : Phrase (List Pair) := node .declarationLine do
  let type ← typeName
  let declared ← name
  symbol "="
  let value ← value
  return type ++ declared ++ value

def assignmentLine : Phrase (List Pair) := node .assignmentLine do
  let assigned ← name
  symbol "="
  let value ← value
  return assigned ++ value

def methodLine : Phrase (List Pair) := node .methodLine do
  let receiver ← name
  let calls ← chain
  return receiver ++ calls

def statement : Phrase (List Pair) :=
  (importLine <|> packageLine <|> routineLine <|> returnLine <|> testedLine .ifLine "if" <|>
    testedLine .elseIfLine "elif" <|> bareLine .elseLine "else" <|> loopLine <|>
    bareLine .tryLine "try" <|> signalLine <|> printLine) <|>
  exitLine <|>
  (braceLine .openLine "\x7b" <|> braceLine .closeLine "\x7d" <|> declarationLine <|>
    assignmentLine <|> methodLine)

def endOfLine : Phrase (List Pair) :=
  named fun s =>
    if s.isEmpty then ⟨some ([⟨.endOfLine, s.length, "", []⟩], s), none⟩ else ⟨none, none⟩

def wholeLine : Phrase (List Pair) := pairOf .line do
  let construct ← maybe statement
  let last ← endOfLine
  return construct ++ last

/-- The construct of a line by way of its pairs. -/
def classify (line : String) : Except Defect Construct :=
  match Text.trimBoth line.toList with
  | [] => .ok .blank
  | '/' :: '/' :: _ => .ok .comment
  | trimmed =>
    match wholeLine (skipFiller line.toList) with
    | ⟨some (pairs, _), _⟩ => do
      let (top, _) ← Pair.fetch .line pairs
      match top.statement? with
      | some p => p.construct
      | none => return .comment
    | ⟨none, missed⟩ =>
      .error (.fault (.noConstruct (String.ofList trimmed) (missedColumn line.toList missed)))

/-- The statement that a line holds, if it is read to its end. -/
def statement? (line : String) : Option Pair :=
  match wholeLine (skipFiller line.toList) with
  | ⟨some (top :: _, _), _⟩ => top.statement?
  | _ => none

end Tree

end LineScript.Line
