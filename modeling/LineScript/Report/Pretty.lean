import LineScript.Report

/-!
# Reports for people

A report with the line it is about and a mark under the offending text. On a terminal the parts
are coloured.
-/
namespace LineScript

/-- Colours are given by the digit that a terminal knows them by. -/
structure Style where
  foreground : Option Nat
  background : Option Nat
  bold : Bool
deriving DecidableEq, Repr

namespace Style

def code (n : String) : String :=
  "\x1b[" ++ n ++ "m"

def apply (style : Style) (coloured : Bool) (text : String) : String :=
  if coloured then
    let foreground := (style.foreground.map fun n => code s!"3{n}").getD ""
    let background := (style.background.map fun n => code s!"4{n}").getD ""
    let bold := if style.bold then code "1" else ""
    foreground ++ background ++ bold ++ text ++ code "0"
  else text

def heading : Style :=
  ⟨some 1, none, true⟩

def mark : Style :=
  ⟨some 2, none, false⟩

def hint : Style :=
  ⟨some 6, none, false⟩

def ofSeverity : Severity → Style
  | .fatal => ⟨some 7, some 1, true⟩
  | .error => ⟨some 1, none, true⟩
  | .warning => ⟨some 3, none, true⟩
  | .info => ⟨some 4, none, true⟩

end Style

namespace Report

def rightAligned (width : Nat) (text : String) : String :=
  Text.repeated (width - text.length) ' ' ++ text

def excerpt (r : Report) (coloured : Bool) (l : Location) (line : String) : String :=
  let mark := "      | " ++ Text.repeated (l.column - 1) ' ' ++ Text.repeated (max r.width 1) '^'
  " " ++ rightAligned 4 (toString l.line) ++ " | " ++ line ++ "\n" ++
    Style.mark.apply coloured mark ++ "\n"

def pretty (r : Report) (coloured : Bool) (source : String) : String :=
  let code := (r.code.map fun code => " " ++ codeText code).getD ""
  let label := "[" ++ r.severity.label ++ code ++ "]"
  let heading :=
    (Style.ofSeverity r.severity).apply coloured label ++ " " ++
      Style.heading.apply coloured (r.kind ++ ": " ++ r.message) ++ "\n"
  let place :=
    match r.location with
    | none => ""
    | some l =>
      let arrow := " --> " ++ l.text ++ "\n"
      match (Text.shownLines source)[l.line - 1]? with
      | some line => arrow ++ r.excerpt coloured l line
      | none => arrow
  let hint :=
    match r.suggestion with
    | some suggestion => Style.hint.apply coloured ("Suggestion: " ++ suggestion) ++ "\n"
    | none => ""
  heading ++ place ++ hint

end Report

end LineScript
