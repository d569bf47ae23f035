import LineScript.Report

/-!
# Collections of reports

Reports of several files in the order in which they came. A report that repeats the message of an
earlier one for the same line is left out.
-/
namespace LineScript

structure Reports where
  reports : List Report
deriving DecidableEq, Repr, Inhabited

/-- What makes two reports the same for a reader. -/
def Report.key (r : Report) : String × Option (String × Nat) :=
  (r.message, r.location.map fun l => (l.file, l.line))

namespace Reports

def empty : Reports :=
  ⟨[]⟩

def push (rs : Reports) (r : Report) : Reports :=
  if rs.reports.any fun seen => seen.key == r.key then rs else ⟨rs.reports ++ [r]⟩

def pushDiagnostic (rs : Reports) (d : Diagnostic) : Reports :=
  rs.push (.ofDiagnostic d)

def extend (rs : Reports) (more : List Report) : Reports :=
  more.foldl push rs

def hasErrors (rs : Reports) : Bool :=
  rs.reports.any fun r => r.severity.isFailure

def exitCode (rs : Reports) : Nat :=
  if rs.hasErrors then 1 else 0

def count (rs : Reports) (severity : Severity) : Nat :=
  rs.reports.countP fun r => r.severity == severity

def toJson (rs : Reports) : Json :=
  .array (rs.reports.map Report.toJson)

def fileOf (r : Report) : String :=
  (r.location.map Location.file).getD "<unknown>"

def editorJson (rs : Reports) : Json :=
  let files := (rs.reports.map fileOf).eraseDups
  .object (files.map fun file =>
    (file, .array ((rs.reports.filter fun r => fileOf r == file).map Report.editorJson)))

end Reports

end LineScript
