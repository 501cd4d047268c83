import LocaleForge.Disk.Expand
import LocaleForge.Editing.Program
import LocaleForge.Shell.State
import LocaleForge.Utility.Concatenate
import LocaleForge.Utility.Count
import LocaleForge.Utility.Print
import LocaleForge.Utility.Sequence
import LocaleForge.Utility.Translate

/-!
The programs of the system and those in files, which name the programs that run them.
-/

namespace LocaleForge.Shell

/-- What runs when a program is started. -/
inductive Program where
  | utility (run : Editing.Interpreter → Utility)
  | shell
  /-- Runs another program, perhaps with more variables. -/
  | launcher

namespace Program

/-- The absolute path of a location. -/
def pathOf (loc : Location) : Bytes :=
  '/' :: Bytes.ofString (Disk.relativePath loc)

/-- Prints the working directory. -/
def workingDirectory : Utility := fun name _ => do
  let p ← get
  Utility.conclude name 0 (pathOf p.directory ++ ['\n'])

/-- The programs of the system by name. -/
def named? (name : Bytes) : Option Program :=
  match String.ofList name with
  | "sh" => some .shell
  | "env" => some .launcher
  | "cat" => some (.utility fun _ => Utility.Concatenate.run)
  | "echo" => some (.utility fun _ => Utility.Echo.run)
  | "false" => some (.utility fun _ _ _ => return 1)
  | "printf" => some (.utility fun _ => Utility.Print.run)
  | "pwd" => some (.utility fun _ => workingDirectory)
  | "sed" => some (.utility Editing.program)
  | "seq" => some (.utility fun _ => Utility.Sequence.run)
  | "tr" => some (.utility fun _ => Utility.Translate.run)
  | "true" => some (.utility fun _ _ _ => return 0)
  | "wc" => some (.utility fun _ => Utility.Count.run)
  | _ => none

/-- Where programs are looked for unless a variable tells. -/
def defaultPath : Bytes :=
  "/usr/local/sbin:/usr/local/bin:/usr/sbin:/usr/bin:/sbin:/bin"

/-- The name of a program in a directory of the system. -/
def systemName? (path : Bytes) : Option Bytes :=
  match Text.cut '/' (String.ofList path) with
  | ["", "bin", name] | ["", "usr", "bin", name] => some name.toList
  | _ => none

/-- What is known of the file at a path that might be a program. -/
inductive Candidate where
  | system (p : Program)
  | file (content : Bytes)
  /-- A file that may not be run, or no file. -/
  | barred

/-- What lies at a path. The programs of the system need not be on the disk. -/
def candidate (d : Disk) (path : Bytes) : Except Disk.Fault Candidate :=
  let system : Except Disk.Fault Candidate :=
    ((systemName? path).bind named?).elim (.error .notFound) fun p => .ok (.system p)
  match d.find true (Bytes.toPath path) with
  | .ok spot =>
    match spot.entry with
    | some (.file content x) => .ok (if x then .file (Bytes.ofArray content) else .barred)
    | some _ => .ok .barred
    | none => system
  | .error .notFound => system
  | .error e => .error e

/-- A program lies at the path. -/
def mayRun (d : Disk) (path : Bytes) : Bool :=
  match candidate d path with
  | .ok (.system _) | .ok (.file _) => true
  | _ => false

/-- A program with its name and arguments. -/
structure Call where
  program : Program
  name : Bytes
  args : List Bytes

/-- The first line of a file without its mark. -/
def firstLine (content : Bytes) : Bytes :=
  (content.drop 2).takeWhile (· ≠ '\n')

/-- The program that runs a file, and the argument for it, as the first line tells. -/
def interpreter (content : Bytes) : Except Disk.Fault (Bytes × Option Bytes) :=
  let line := (firstLine content).dropWhile Bytes.isBlank
  let path := line.takeWhile (!Bytes.isBlank ·)
  let rest := (line.drop path.length).dropWhile Bytes.isBlank
  let arg := (rest.reverse.dropWhile Bytes.isBlank).reverse
  if content.take 2 ≠ ['#', '!'] || path.isEmpty then .error .badExecutable
  else .ok (path, if arg.isEmpty then none else some arg)

/-- The call that starting a file at a path comes down to. `n` bounds the files that run each other. -/
def resolve (d : Disk) (n : Nat) (path name : Bytes) (args : List Bytes) : Except Disk.Fault Call := do
  match ← candidate d path with
  | .system program => .ok ⟨program, name, args⟩
  | .barred => .error .accessDenied
  | .file content =>
    let (runner, arg) ← interpreter content
    match n with
    | 0 => .error .tooManyLinks
    | n + 1 => resolve d n runner runner (arg.toList ++ path :: args)

/-- The deepest chain of files that run each other. -/
def maxChain := 5

/-- The places where a program of a name may lie. -/
def places (searched name : Bytes) : List Bytes :=
  (Text.cut ':' (String.ofList searched)).map fun dir =>
    if dir.isEmpty then name else dir.toList ++ '/' :: name

/-- The places where a program lies, or why there is none. -/
def search (d : Disk) (searched name : Bytes) : Except Disk.Fault (List Bytes) :=
  let found := places searched name
  match found.filter (mayRun d) with
  | [] => .error (if found.any fun p => (candidate d p).isOk then .accessDenied else .notFound)
  | ps => .ok ps

/-- The call that a program comes down to which lies in one of some places; the first one counts that may be
run. A file that names no program for it is a script. -/
def callIn (d : Disk) (name : Bytes) (args : List Bytes) : List Bytes → Except Disk.Fault Call
  | [] => .error .notFound
  | p :: ps =>
    match resolve d maxChain p name args with
    | .ok c => .ok c
    | .error .badExecutable => .ok ⟨.shell, "/bin/sh", p :: args⟩
    | .error e =>
      match callIn d name args ps with
      | .ok c => .ok c
      | .error .notFound => .error e
      | .error e => .error e

/-- The call that a name or path comes down to. -/
def call (d : Disk) (searched name : Bytes) (args : List Bytes) : Except Disk.Fault Call :=
  if name.contains '/' then callIn d name args [name]
  else do callIn d name args (← search d searched name)

end Program

end LocaleForge.Shell
