import LocaleForge.Process.Basic
import LocaleForge.Utility.Quotation

/-!
Utilities: programs that work on their arguments and on the files of their process.
-/

namespace LocaleForge

/-- What a program does with the name that it was called by and its arguments, up to its status. -/
abbrev Utility := Bytes → List Bytes → Action Nat

namespace Utility

/-- A complaint with the name of the program in front. -/
def complain (name message : Bytes) : Action Unit :=
  Process.complain (name ++ ": " ++ message)

/-- A complaint about a fault. -/
def report (name subject : Bytes) (e : Disk.Fault) : Action Unit :=
  complain name (subject ++ ": " ++ Bytes.ofFault e)

/-- Where to find the rules of a program that was called wrongly. -/
def hint (name : Bytes) : Bytes :=
  "Try '" ++ name ++ " --help' for more information."

/-- The program was called wrongly. -/
def misuse (name message : Bytes) : Action Nat := do
  complain name message
  Process.complain (hint name)
  return 1

/-- Writes the last of the output. The status is 1 if that fails. -/
def conclude (name : Bytes) (status : Nat) (output : Bytes) : Action Nat := do
  if output.isEmpty then return status
  match ← Process.write Process.standardOutput output with
  | .ok () => return status
  | .error e =>
    report name "write error" e
    return 1

/-- The content of a file, or of standard input for a hyphen. -/
def readOperand (file : Bytes) : Action (Except Disk.Fault Bytes) :=
  if file = ['-'] then Process.readAll Process.standardInput else Process.readPath file

/-- The status for success or failure. -/
def statusOf (succeeded : Bool) : Nat :=
  if succeeded then 0 else 1

end Utility

end LocaleForge
