import LineScript.Proofs.Inputs

/-!
# Reports of a run

A run reports the fault of an input that fails, unless an earlier input of the run has failed with
the same message at what the reports give as the same place. They name a script by its file name,
without its folder, and this name is also what the source of a report is looked up by.
-/
namespace LineScript.CommandLine

namespace Turn

/-- The source of the script, by the name of the script. -/
def source (turn : Turn) : Option (String × String) :=
  (Script.load turn.before.disk turn.path).toOption.map fun script => (script.name, script.content)

variable (o : Options) (given : Option Settings)

variable {o given}

end Turn

namespace Progress

end Progress

section Sources

variable {o : Options} {given : Option Settings}

end Sources

section Run

variable {o : Options} {given : Option Settings} {p : Progress} {paths : List String}

end Run

end LineScript.CommandLine
