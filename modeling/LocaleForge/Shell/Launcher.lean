import LocaleForge.Shell.Programs
import LocaleForge.Shell.Variables

/-!
The program that runs other programs with variables of its own.
-/

namespace LocaleForge.Shell.Launcher

/-- What the launcher is asked for. -/
inductive Wish where
  /-- To begin without variables. -/
  | ignore
  /-- To take a variable away. -/
  | unset
  /-- To end lines with zeros. -/
  | null
deriving DecidableEq, Repr

def options : Utility.OptionTable Wish where
  letters := [('i', .plain, .ignore), ('u', .required, .unset), ('0', .plain, .null)]
  words := [("ignore-environment", .plain, .ignore), ("unset", .required, .unset), ("null", .plain, .null)]
  permutes := false

/-- Variables, one of which is set. -/
def withVariable (vs : List (Bytes × Bytes)) (name value : Bytes) : List (Bytes × Bytes) :=
  if (vs.lookup name).isSome then vs.map fun v => if v.1 = name then (name, value) else v
  else vs ++ [(name, value)]

/-- How the launcher ends that runs no program. -/
inductive Report where
  /-- The options are wrong. -/
  | misused (message : Bytes)
  | failed (status : Nat) (message : Bytes)
  | printed (output : Bytes)

/-- Tells what there is to tell, and gives the status. -/
def Report.give (name : Bytes) : Report → Action Nat
  | misused message => do
    let _ ← Utility.misuse name message
    return 125
  | failed status message => do
    Utility.complain name message
    return status
  | printed output => Utility.conclude name 0 output

/-- Where programs are looked for without a variable that tells. -/
def searched (vs : List (Bytes × Bytes)) : Bytes :=
  (vs.lookup "PATH".toList).getD "/bin:/usr/bin"

/-- The program to run, and its process. -/
def plan (args : List Bytes) (p : Process) : Except Report (Program.Call × Process) :=
  let a : Utility.Arguments Wish := options.read args
  match a.fault with
  | some message => .error (.misused message)
  | none =>
    let clears := a.operands.head? = some ['-'] || a.options.any (·.1 = .ignore)
    let operands := if a.operands.head? = some ['-'] then a.operands.tail else a.operands
    let taken := a.options.filterMap fun o => if o.1 = .unset then o.2 else none
    match taken.find? fun n => n.isEmpty || n.contains '=' with
    | some n =>
      let message := "cannot unset " ++ Utility.Quotation.quoted n ++ ": " ++ Bytes.ofFault .invalidArgument
      .error (.failed 125 message)
    | none =>
      let kept := if clears then [] else p.environment.filter fun v => !taken.contains v.1
      let settings := operands.takeWhile (·.contains '=')
      let environment := settings.foldl
        (fun vs text =>
          let (n, value) := assignment text
          withVariable vs n (value.getD [])) kept
      match operands.drop settings.length with
      | [] =>
        let close := if a.options.any (·.1 = .null) then '\x00' else '\n'
        .error (.printed (environment.flatMap fun v => v.1 ++ '=' :: v.2 ++ [close]))
      | command :: args =>
        match Program.call p.world.disk (searched environment) command args with
        | .ok call => .ok (call, { p with environment })
        | .error e =>
          let message := Utility.Quotation.quoted command ++ ": " ++ Bytes.ofFault e
          .error (.failed (if e = .notFound then 127 else 126) message)

end LocaleForge.Shell.Launcher
