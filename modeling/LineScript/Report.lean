import LineScript.Diagnostic
import LineScript.Json
import LineScript.Text.Lines

/-!
# Reports

A diagnostic as it is shown to people and to tools.
-/
namespace LineScript

inductive Severity where
  | fatal
  | error
  | warning
  | info
deriving DecidableEq, Repr, Inhabited

namespace Severity

def ofLevel : Level → Severity
  | .critical => fatal
  | .error => error
  | .warning => warning
  | .info => info

def label : Severity → String
  | fatal => "FATAL"
  | error => "ERROR"
  | warning => "WARNING"
  | info => "INFO"

def name : Severity → String
  | fatal => "Fatal"
  | error => "Error"
  | warning => "Warning"
  | info => "Info"

def editorNumber : Severity → Nat
  | fatal | error => 1
  | warning => 2
  | info => 3

def isFailure : Severity → Bool
  | fatal | error => true
  | _ => false

end Severity

structure Report where
  message : String
  severity : Severity
  kind : String
  issuer : String
  location : Option Location
  width : Nat
  code : Option Nat
  suggestion : Option String
deriving DecidableEq, Repr, Inhabited

def codeText (code : Nat) : String :=
  s!"E_{code}"

namespace Report

def suggestionFor : FaultClass → Option String
  | .undefinedVariable => some "declare the variable before using it, e.g. `Int x = 0`"
  | .unknownType =>
    some "known types are String, Int, Boolean, Array<T>, Map<T>, Hash and Scalar"
  | .structural => some "check that every `\x7b` has a matching `\x7d`"
  | _ => none

def ofDiagnostic (d : Diagnostic) : Report where
  message := d.message
  severity := .ofLevel d.level
  kind := d.cls.name
  issuer := d.issuer
  location := d.location
  width := (d.span.map Span.width).getD 0
  code := some d.cls.code
  suggestion := suggestionFor d.cls

def text (r : Report) : String :=
  let place := (r.location.map fun location => " at " ++ location.text).getD ""
  match r.code with
  | some code => s!"[{r.severity.label}]{place} ({codeText code}): {r.message}"
  | none => s!"[{r.severity.label}]{place}: {r.message}"

def locationJson (l : Location) : Json :=
  .object [("file", .text l.file), ("line", .ofNat l.line), ("column", .ofNat l.column)]

def toJson (r : Report) : Json :=
  .object [
    ("message", .text r.message),
    ("severity", .text r.severity.name),
    ("kind", .text r.kind),
    ("issuer", .text r.issuer),
    ("location", .ofOption locationJson r.location),
    ("width", .ofNat r.width),
    ("code", .ofOption .ofNat r.code),
    ("suggestion", .ofOption .text r.suggestion)]

/-- The report as editors take it: lines and characters count from zero. -/
def editorJson (r : Report) : Json :=
  let position (l : Location) (width : Nat) : Json :=
    .object [("line", .ofNat (l.line - 1)), ("character", .ofNat (l.column - 1 + width))]
  let range (l : Location) : Json :=
    .object [("start", position l 0), ("end", position l r.width)]
  .object [
    ("severity", .ofNat r.severity.editorNumber),
    ("code", .ofOption (fun code => .text (codeText code)) r.code),
    ("source", .text "sealang"),
    ("message", .text r.message),
    ("range", .ofOption range r.location)]

end Report

end LineScript
