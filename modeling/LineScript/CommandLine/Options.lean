/-!
# Options of the command line

A command, options in any order, and the inputs. Options have long names and some a letter; a
value stands after an equals sign, directly behind the letter, or in the next argument.
-/
namespace LineScript.CommandLine

inductive Command where
  | build
  | check
deriving DecidableEq, Repr, Inhabited

inductive Dump where
  | outline
  | text
deriving DecidableEq, Repr, Inhabited

structure Options where
  command : Command
  inputs : List String := []
  settings : Option String := none
  isModule : Bool := false
  json : Option Bool := none
  verbosity : Nat := 0
  output : Option String := none
  dump : Option Dump := none
deriving DecidableEq, Repr, Inhabited

inductive Valued where
  | settings
  | format
  | output
  | dump
deriving DecidableEq, Repr

/-- Sets an option. No option may be set twice, paths are not empty, and some options belong to one
command only. -/
def Options.set? (o : Options) (option : Valued) (value : String) : Option Options :=
  match option with
  | .settings =>
    if o.settings.isSome ∨ value = "" then none else some { o with settings := some value }
  | .format =>
    if o.json.isSome then none
    else if value = "human" then some { o with json := some false }
    else if value = "json" then some { o with json := some true }
    else none
  | .output =>
    if o.command ≠ .build ∨ o.output.isSome ∨ value = "" then none
    else some { o with output := some value }
  | .dump =>
    if o.command ≠ .build ∨ o.dump.isSome then none
    else if value = "ir" then some { o with dump := some .outline }
    else if value = "text" then some { o with dump := some .text }
    else none

inductive Step where
  | done (o : Options)
  /-- The next argument is the value. -/
  | wants (o : Options) (option : Valued)
  | help
  | refused

def Step.ofOption : Option Options → Step
  | some o => .done o
  | none => .refused

def valuedByName (name : String) : Option Valued :=
  match name with
  | "config" => some .settings
  | "message-format" => some .format
  | "output" => some .output
  | "dump" => some .dump
  | _ => none

def valuedByLetter (letter : Char) : Option Valued :=
  match letter with
  | 'c' => some .settings
  | 'o' => some .output
  | 'd' => some .dump
  | _ => none

def isOffered (command : Command) : Valued → Bool
  | .output | .dump => command == .build
  | _ => true

def longStep (o : Options) (text : List Char) : Step :=
  let name := String.ofList (text.takeWhile (· != '='))
  let value :=
    match text.dropWhile (· != '=') with
    | _ :: value => some (String.ofList value)
    | [] => none
  match valuedByName name, value with
  | some option, some value => .ofOption (o.set? option value)
  | some option, none => if isOffered o.command option then .wants o option else .refused
  | none, none =>
    if name = "module" then if o.isModule then .refused else .done { o with isModule := true }
    else if name = "verbose" then .done { o with verbosity := o.verbosity + 1 }
    else if name = "help" then .help
    else .refused
  | none, some _ => .refused

/-- Letters behind one dash. A letter that takes a value takes the rest of the argument. -/
def lettersStep (o : Options) : List Char → Step
  | [] => .done o
  | 'v' :: rest => lettersStep { o with verbosity := o.verbosity + 1 } rest
  | 'h' :: _ => .help
  | letter :: rest =>
    match valuedByLetter letter with
    | none => .refused
    | some option =>
      match rest with
      | [] => if isOffered o.command option then .wants o option else .refused
      | '=' :: value => .ofOption (o.set? option (String.ofList value))
      | value => .ofOption (o.set? option (String.ofList value))

def argumentStep (o : Options) (argument : String) : Step :=
  match argument.toList with
  | '-' :: '-' :: name => longStep o name
  | '-' :: letter :: letters => lettersStep o (letter :: letters)
  | _ => .done { o with inputs := o.inputs ++ [argument] }

def isOption (argument : String) : Bool :=
  match argument.toList with
  | '-' :: _ :: _ => true
  | _ => false

inductive Request where
  | run (o : Options)
  | help
  | refused

def readOptions (o : Options) : List String → Request
  | [] => if o.inputs.isEmpty then .refused else .run o
  | argument :: rest =>
    if argument = "--" then
      let inputs := o.inputs ++ rest
      if inputs.isEmpty then .refused else .run { o with inputs := inputs }
    else
      match argumentStep o argument with
      | .done o => readOptions o rest
      | .help => .help
      | .refused => .refused
      | .wants o option =>
        match rest with
        | [] => .refused
        | value :: rest =>
          if isOption value then .refused
          else
            match o.set? option value with
            | some o => readOptions o rest
            | none => .refused

/-- Help is asked for with the name of one command at most. -/
def readTopics : List String → Request
  | [] | ["build"] | ["check"] | ["help"] => .help
  | _ => .refused

/-- Help or the version is asked for before any command. Of letters behind one dash only the first
counts. -/
def asksForHelp (argument : String) : Bool :=
  match argument.toList with
  | '-' :: 'h' :: _ | '-' :: 'V' :: _ => true
  | _ => argument == "--help" || argument == "--version"

def read : List String → Request
  | [] => .refused
  | "build" :: rest => readOptions { command := .build } rest
  | "check" :: rest => readOptions { command := .check } rest
  | "help" :: topics => readTopics topics
  | argument :: _ => if asksForHelp argument then .help else .refused

end LineScript.CommandLine
