import LocaleForge.Failure
import LocaleForge.Shell.Eval

/-!
Starting a program in a directory, and collecting what it prints.
-/

namespace LocaleForge.Shell

/-- The words for how a program ended. -/
def endingText : Ending → String
  | .exited n => "exit status: " ++ toString n
  | .signalled s =>
    let number := "signal: " ++ toString s.number
    match s.name? with
    | some name => number ++ " (SIG" ++ name ++ ")"
    | none => number

/-- A program that has ended. -/
structure Finished where
  disk : Disk
  output : Bytes
  errors : Bytes
  ending : Ending

/-- The call that a name or a path comes down to. -/
def callOf (d : Disk) (program : Bytes) (args : List Bytes) : Except Disk.Fault Program.Call := do
  let path ←
    if program.isEmpty then .error .notFound
    else if program.contains '/' then .ok program
    else
      let places ← Program.search d Program.defaultPath program
      .ok (places.headD program)
  Program.resolve d Program.maxChain path program args

/-- The variables that programs are given. -/
def environment : List (Bytes × Bytes) :=
  [("HOME", "/root"), ("PATH", Program.defaultPath)]

/-- A process with an input, and the open files to which it prints. -/
def newProcess (d : Disk) (input : Bytes) : Process × Nat × Nat :=
  let world : World := { disk := d, lastProcess := 2 }
  let ((stdin, _), world) := world.addPipe input
  let ((output, stdout), world) := world.addPipe []
  let ((errors, stderr), world) := world.addPipe []
  let process : Process :=
    { world, environment, number := 2, parent := 1
      descriptors := [(Process.standardInput, stdin), (Process.standardOutput, stdout),
        (Process.standardError, stderr)] }
  (process, output, errors)

/-- What has been written to a pipe. -/
def written (w : World) (handle : Nat) : Bytes :=
  match w.upcoming handle with
  | .ok bs => bs
  | .error _ => []

/-- The directories of the system, each behind the one that holds it. -/
def systemDirectories : List Location :=
  [["bin"], ["dev"], ["etc"], ["root"], ["sbin"], ["tmp"], ["usr"], ["usr", "bin"], ["usr", "sbin"], ["usr", "local"],
    ["usr", "local", "bin"], ["usr", "local", "sbin"]]

/-- The directories of the system that are not on a disk. -/
def missingDirectories (d : Disk) : List Location :=
  systemDirectories.filter fun loc => (d.get? loc).isNone

/-- Starts a program in a directory, and waits for its end. -/
def spawn (d : Disk) (dir : Path) (program : String) (args : List String) (stdin : String) :
    Except Disk.Fault Finished := do
  if (program :: args).any (·.toList.contains '\x00') then .error .nulInArgument
  else
    let spot ← d.find true dir
    match spot.entry with
    | none => .error .notFound
    | some .directory =>
      let missing := missingDirectories d
      let inside := missing.foldl (fun d loc => d.set loc .directory) (d.within spot.location)
      let call ← callOf inside program (args.map Bytes.ofString)
      let (process, output, errors) := newProcess inside stdin
      let (ending, world) := Start.call Eval.command call process
      let after := missing.foldl Disk.erase (world.disk.within d.workDir)
      .ok ⟨after, written world output, written world errors, ending⟩
    | some _ => .error .notDirectory

/-- The output of a program as a text. A program that does not succeed fails, and both its outputs
are reported; `label` names the program in messages. -/
def capture (d : Disk) (dir : Path) (program : String) (args : List String) (label : String)
    (stdin : Option String) : Except Failure String × Disk :=
  match spawn d dir program args (stdin.getD "") with
  | .error fault => (.error (.ofDisk (.starting label) fault), d)
  | .ok r =>
    if r.ending = .exited 0 then
      match Text.decode? (Bytes.toArray r.output) with
      | some s => (.ok s, r.disk)
      | none => (.error ⟨[.decodingOutput label], .notUtf8⟩, r.disk)
    else
      (.error (.ofCause
        (.exited label (endingText r.ending) (Bytes.toText r.errors) (Bytes.toText r.output))), r.disk)

/-- The output of a shell command. -/
def captureCommand (d : Disk) (dir : Path) (command label : String) (stdin : Option String) :
    Except Failure String × Disk :=
  capture d dir "sh" ["-c", command] label stdin

/-- Names of programs that every system has. -/
def systemPrograms : List String :=
  ["sh", "cat", "printf", "sed", "tr", "seq", "wc", "echo", "true", "false", "pwd", "kill", "test",
   "[", "which", "ls", "cp", "mv", "rm", "mkdir", "rmdir", "touch", "head", "tail", "sort", "uniq",
   "cut", "grep", "awk", "find", "xargs", "env", "sleep", "date", "basename", "dirname", "tee", "ln",
   "chmod", "id", "expr", "od", "cmp", "diff", "uname", "bash", "perl", "tar", "gzip"]

/-- A program of this name is installed, or the path leads to one. -/
def isProgram (d : Disk) (name : String) : Bool :=
  if name.toList.contains '/' then
    match d.entryAt? ⟨name⟩ with
    | some (.file _ x) => x
    | some _ => false
    | none => ((Program.systemName? (Bytes.ofString name)).any fun n => systemPrograms.contains (String.ofList n))
  else systemPrograms.contains name

end LocaleForge.Shell
