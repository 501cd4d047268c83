import LocaleForge.Shell.Children
import LocaleForge.Shell.Expansion
import LocaleForge.Shell.Grammar

/-!
Running texts as scripts, line by line: each line is read when those before it have run, in which aliases may
have changed. The end of a process and the handlers of signals are such texts, too.
-/

namespace LocaleForge.Shell

/-- Where a command stands. -/
structure Position where
  /-- The process has nothing to do behind it. -/
  isLast : Bool := false
  /-- Something depends on its success. -/
  isTested : Bool := false
deriving DecidableEq, Repr

/-- Only what is said of the success of a command. -/
def Position.inner (p : Position) : Position :=
  { isTested := p.isTested }

/-- Runs a command and gives its status. -/
abbrev Evaluate := Position → Command → Run Nat

namespace Script

/-- The text that has not been read. -/
def rest (r : Reading) : Bytes :=
  (r.frames.getLast?.map (·.text)).getD []

/-- Writes what has been read of a text. -/
def showRead (before after : Reading) : Run Unit := do
  if (← get).has "verbose" then
    let text := rest before
    printError (text.take (text.length - (rest after).length))

/-- Reads the next line. -/
def readLine (isFile : Bool) (r : Reading) : Run (Option (Option Command) × Reading) := do
  let s ← get
  match Reader.line { r with aliases := s.aliases, documents := s.documents } with
  | .ok c after =>
    let isRead := after.pushedBack && after.token = .endOfFile
    modify fun s => { s with documents := after.documents, isRead }
    if isFile then showRead r after
    return (c, after)
  | .error message after =>
    modify fun s => { s with documents := after.documents, line := after.line }
    if isFile then showRead r after
    fail message

/-- Runs the lines that are left, and gives the status of the last command. `n` bounds their number. -/
def runLines (run : Evaluate) (isFile : Bool) (p : Position) (n : Nat) (r : Reading) (status : Nat) :
    Run Nat := do
  match n with
  | 0 => return status
  | n + 1 =>
    match ← readLine isFile r with
    | (none, _) => return status
    | (some command, r) =>
      let isLast := p.isLast && (← get).isRead
      let status ← match command with
        | some c => run { p with isLast } c
        | none => pure status
      if (← get).skip.isSome then return status
      else runLines run isFile p n r status

/-- Runs a text that is a part of a script. -/
def runText (run : Evaluate) (p : Position) (text : Bytes) : Run Nat :=
  runLines run false p Reader.maxSteps { frames := [{ text }] } 0

/-- Leaving a function or a file is done. -/
def arrive : Run Unit :=
  modify fun s => { s with skip := s.skip.filter fun k => k ≠ .return && k ≠ .bareReturn }

/-- Runs the content of a file. -/
def runContent (run : Evaluate) (content : Bytes) : Run Nat := do
  let text := content.filter (· ≠ '\x00')
  let status ← runLines run true {} Reader.maxSteps { frames := [{ text }] } 0
  arrive
  return status

/-- Runs the actions that are set for signals which have come. -/
def handleSignals (run : Evaluate) : Run Unit := do
  let s ← get
  if s.caught.isEmpty then return
  let before := s.finalStatus
  let status := before.getD s.status
  modify fun s => { s with finalStatus := some status }
  for signal in signals do
    let s ← get
    if s.skip.isNone && s.caught.contains signal.number then
      set { s with caught := s.caught.filter (· ≠ signal.number) }
      match s.trap? signal.number with
      | none => pure ()
      | some action =>
        let _ ← runText run {} action
        modify fun s => if s.skip = some .return then s else { s with status }
  modify fun s => { s with finalStatus := before }

/-- How a process ends whose commands have come to an end, or been left. -/
def ending (run : Evaluate) (jump : Jump) : Run Ending := do
  match jump with
  | .over e => return e
  | _ =>
    let s ← get
    let status := match jump with
      | .exited => s.finalStatus.getD s.status
      | _ => s.status
    let s := { s with status, finalStatus := some status, skip := none, loopDepth := 0, tracing := false }
    set (s.setTrap 0 none)
    match s.trap? 0 with
    | none => return .exited (status % 256)
    | some action =>
      try
        let _ ← runText run {} action
        return .exited (status % 256)
      catch
        | .over e => return e
        | .exited =>
          let s ← get
          return .exited (s.finalStatus.getD s.status % 256)
        | _ => return .exited ((← get).status % 256)

/-- Runs commands to the end of their process. What the process has left beside it runs then. -/
def conclude (run : Evaluate) : Concluding := fun body s =>
  let all : Run Ending := do
    let ended ← try
        body
        ending run .ended
      catch jump => ending run jump
    try Builtin.runJobs catch _ => pure ()
    return ended
  match all s with
  | .ok e s => (e, s.process.world)
  | .error _ s => (.exited s.status, s.process.world)

/-- The output of a command within a word. -/
def capture (run : Evaluate) : Capture := fun command => do
  match command with
  | none => return []
  | some c =>
    let ((front, back), world) := (← get).process.world.addPipe []
    modify fun s => { s with process := { s.process with world } }
    let ended ← inChild (conclude run)
      (fun s => { s with process := s.process.point Process.standardOutput back })
      (do let _ ← run { isLast := true } c)
    let status ← statusOf ended
    let output := (← get).process.world.upcoming front
    modify fun s => { s with innerStatus := status }
    return match output with
      | .ok bs => bs
      | .error _ => []

end Script

end LocaleForge.Shell
