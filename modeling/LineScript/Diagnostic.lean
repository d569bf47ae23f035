import LineScript.Fault
import LineScript.Location

/-!
# Diagnostics

A fault together with its severity and its place in a source.
-/
namespace LineScript

inductive Level where
  | info
  | warning
  | error
  | critical
deriving DecidableEq, Repr, Inhabited

def Level.name : Level → String
  | info => "INFO"
  | warning => "WARNING"
  | error => "ERROR"
  | critical => "CRITICAL"

structure Diagnostic where
  cls : FaultClass
  level : Level
  message : String
  issuer : String
  location : Option Location
  span : Option Span
deriving DecidableEq, Repr, Inhabited

namespace Diagnostic

def ofFault (f : Fault) : Diagnostic :=
  ⟨f.cls, .error, f.message, f.issuer, none, none⟩

/-- Adds a place, unless one is known. -/
def locate (d : Diagnostic) (location : Location) (span : Option Span) : Diagnostic :=
  match d.location with
  | some _ => d
  | none => { d with location := some location, span := span }

def onLine (file : String) (line : Nat) (text : String) (f : Fault) : Diagnostic :=
  (ofFault f).locate (.ofLine file line text) (some (.ofLine file line text))

def text (d : Diagnostic) : String :=
  match d.location with
  | some location => s!"{d.cls.name}: {d.message} (at {location.text})"
  | none => s!"{d.cls.name}: {d.message}"

def record (d : Diagnostic) : String :=
  let place := (d.location.map Location.text).getD "unknown"
  let span := (d.span.map Span.text).getD "span:none"
  s!"SEALANG | {d.level.name} | {d.cls.name} | {place} | {d.issuer} | {span} | {d.message}"

def summary (d : Diagnostic) : String :=
  let place := (d.location.map Location.text).getD "unknown location"
  s!"SEALANG | {d.level.name} | {d.cls.name} | {place} | {d.message}"

end Diagnostic

end LineScript
