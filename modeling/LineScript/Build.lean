import LineScript.Compile
import LineScript.Settings.Load

/-!
# Building

The program of a script as a file of its own.
-/
namespace LineScript

namespace Store

/-- Writes the text of a file block into a folder; gives the path and the number of bytes. The
disk is touched only once the text is complete. -/
def writeFile (s : Store) (id : BlockId) (tab : Nat) (folder extension : String) (d : Disk) :
    Except Fault (String × Nat) × Disk :=
  match (do return (← s.fileName id, ← s.fileText id tab) : Except Fault (String × String)) with
  | .error fault => (.error fault, d)
  | .ok (name, text) =>
    let path := Path.join folder (name ++ "." ++ extension)
    match d.write path text with
    | (.ok (), d) => (.ok (path, text.utf8ByteSize), d)
    | (.error refusal, d) => (.error (.writeFailed path refusal.text), d)

end Store

namespace Program

def write (p : Program) (folder extension : String) (d : Disk) :
    Except Fault (String × Nat) × Disk :=
  p.store.writeFile p.root p.tabSize folder extension d

end Program

def build (settings : Settings) (script : Script) (folder : String) (d : Disk) :
    Except Diagnostic String × Disk :=
  match (compile settings script).1 with
  | .error diagnostic => (.error diagnostic, d)
  | .ok program =>
    match program.write folder settings.extension d with
    | (.ok (path, _), d) => (.ok path, d)
    | (.error fault, d) => (.error (.ofFault fault), d)

end LineScript
