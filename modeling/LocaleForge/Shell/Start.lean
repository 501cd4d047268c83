import LocaleForge.Shell.Launcher
import LocaleForge.Shell.Script

/-!
Starting programs: utilities, shells, and the launcher of other programs. A shell runs the text of an argument,
a file, or its standard input.
-/

namespace LocaleForge.Shell

/-- The process of a program that the shell starts. -/
def State.processOf (s : State) : Process :=
  let ignored := (s.traps.filter (·.2.isEmpty)).map (·.1)
  let inherited := s.process.ignored.filter fun n => (s.trap? n).isNone
  { s.process with environment := s.environment, ignored := ignored ++ inherited }

namespace Start

/-- The variables of a new shell that do not come from its process, with those that programs are given by all
shells. -/
def ownVariables (p : Process) : List (Bytes × Bytes) :=
  [("PATH", Program.defaultPath), ("IFS", " \t\n"), ("OPTIND", "1"), ("PS1", "# "), ("PS2", "> "), ("PS4", "+ "),
   ("PPID", Bytes.ofNat p.parent)]

/-- The variables that a new shell sets whatever its process tells. -/
def isOwn (name : Bytes) : Bool :=
  ["IFS", "OPTIND", "PPID"].contains (String.ofList name)

/-- A variable leads to the working directory. -/
def leadsHere (p : Process) (path : Bytes) : Bool :=
  path.head? = some '/' &&
    match p.world.disk.find true (Bytes.toPath path) with
    | .ok spot => spot.entry = some .directory && spot.location = p.directory
    | .error _ => false

/-- A new shell. -/
def newShell (name : Bytes) (p : Process) : State :=
  let s : State := { process := p, number := p.number, name, line := 0 }
  let s := (ownVariables p).foldl (fun s (n, v) => s.putVariable n ⟨some v, false, false, true⟩) s
  let s := (p.environment.filter fun v => Bytes.isName v.1).foldl
    (fun s (n, v) =>
      let value := if isOwn n then (s.value? n).getD v else v
      s.putVariable n ⟨some value, true, false, true⟩) s
  let directory := ((s.value? "PWD").filter (leadsHere p)).getD (Program.pathOf p.directory)
  { s.putVariable "PWD" ⟨some directory, true, false, true⟩ with directory }

/-- Runs standard input as a script. -/
def runInput (run : Evaluate) (args : List Bytes) : Run Unit := do
  modify fun s => { s.setOption "stdin" true with arguments := args }
  let content ← onProcess (Process.readAll Process.standardInput)
  let _ ← Script.runContent run <|
    match content with
    | .ok bs => bs
    | .error _ => []

/-- Runs a file as a script. -/
def runFile (run : Evaluate) (file : Bytes) (args : List Bytes) : Run Unit := do
  match ← onProcess (Process.readPath file) with
  | .error .isDirectory | .ok [] => modify fun s => { s with name := file, arguments := args }
  | .error e => fail ("cannot open " ++ file ++ ": " ++ describe "No such file" e)
  | .ok content =>
    modify fun s => { s with name := file, arguments := args }
    let _ ← Script.runContent run content

/-- Does what the arguments of a new shell tell. -/
def runArguments (run : Evaluate) (args : List Bytes) : Run Unit := do
  let setting ← setOptions (letterCount args) true args
  let readsInput := (← get).has "stdin"
  match setting.runsArgument, setting.rest with
  | true, [] => fail "-c requires an argument"
  | true, text :: rest =>
    modify fun s => { s with name := rest.headD s.name, arguments := rest.tail }
    if readsInput then
      let _ ← Script.runText run {} text
      runInput run rest.tail
    else
      let _ ← Script.runText run { isLast := true } text
  | false, file :: rest => if readsInput then runInput run setting.rest else runFile run file rest
  | false, [] => runInput run []

/-- Runs a shell as a process. -/
def shell (run : Evaluate) (name : Bytes) (args : List Bytes) (p : Process) : Ending × World :=
  Script.conclude run (runArguments run args) (newShell name p)

/-- Runs a text in a shell beside a process, and gives its output. -/
def interpreter (run : Evaluate) : Editing.Interpreter := fun text p =>
  let (number, world) := newNumber p.world
  let ((front, back), world) := world.addPipe []
  let child := { p with world, number, parent := p.number }.point Process.standardOutput back
  let (_, world) := shell run "sh" ["-c", text] child
  let output := match world.upcoming front with
    | .ok bs => bs
    | .error _ => []
  (output, { p with world := { world with disk := world.disk.within p.directory } })

/-- Runs a program as a process. `n` bounds the launchers that run each other. -/
def callUpTo (n : Nat) (run : Evaluate) (c : Program.Call) (p : Process) : Ending × World :=
  let finish (a : Action Nat) : Ending × World :=
    let (status, p) := a p
    (.exited status, p.world)
  match c.program with
  | .utility program => finish (program (interpreter run) c.name c.args)
  | .shell => shell run c.name c.args p
  | .launcher =>
    match n, Launcher.plan c.args p with
    | n + 1, .ok (call, p) => callUpTo n run call p
    | 0, .ok _ => (.exited 126, p.world)
    | _, .error report => finish (report.give c.name)

/-- Runs a program as a process. -/
def call (run : Evaluate) (c : Program.Call) (p : Process) : Ending × World :=
  callUpTo 1000 run c p

/-- Runs a program, which lies in one of some places, in place of the shell. -/
def inPlace {α : Type} (run : Evaluate) (name : Bytes) (args places : List Bytes) : Run α := do
  let p := (← get).processOf
  match Program.callIn p.world.disk name args places with
  | .ok c =>
    let (ending, world) := call run c p
    modify fun s => { s with process := { s.process with world } }
    throw (.over ending)
  | .error e =>
    let isMissing := [Disk.Fault.notFound, .notDirectory, .nameTooLong, .tooManyLinks].contains e
    modify fun s => { s with status := if isMissing then 127 else 126 }
    warn (name ++ ": " ++ describe "not found" e)
    throw .ended

end Start

end LocaleForge.Shell
