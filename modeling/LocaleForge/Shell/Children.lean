import LocaleForge.Shell.Builtin

/-!
Processes that a shell starts: they share the world with it and have a state of their own.
-/

namespace LocaleForge.Shell

/-- Runs what a new process does to its end. -/
abbrev Concluding := Run Unit → State → Ending × World

/-- The world behind a new process, and its number. -/
def newNumber (w : World) : Nat × World :=
  (w.lastProcess + 1, { w with lastProcess := w.lastProcess + 1 })

/-- A copy of the shell as a process of its own, which handles no signals. -/
def childOf (s : State) (number : Nat) : State :=
  { s with
    process := { s.process with number, parent := s.process.number }
    traps := s.traps.filter (·.2.isEmpty)
    caught := []
    jobs := [] }

/-- The shell goes on in a world that others have changed. -/
def goOnIn (world : World) : Run Unit := do
  modify fun s =>
    let world := { world with disk := world.disk.within s.process.directory }
    { s with process := { s.process with world } }
  noticeSignals

/-- The first place for a job that is not taken; `n` bounds their number. -/
def placeFrom (jobs : List Job) (n place : Nat) : Nat :=
  match n with
  | 0 => place
  | n + 1 => if jobs.any fun j => j.place = place && !j.told then placeFrom jobs n (place + 1) else place

/-- Takes a place for a new job. -/
def takePlace : Run Nat :=
  modifyGet fun s =>
    let place := placeFrom s.jobs s.jobs.length 1
    (place, { s with jobs := s.jobs.filter (·.place ≠ place) })

/-- A number for a new process. -/
def nextNumber : Run Nat :=
  modifyGet fun s =>
    let (number, world) := newNumber s.process.world
    (number, { s with process := { s.process with world } })

/-- Runs commands in a process of its own, and waits for its end. -/
def inChild (conclude : Concluding) (adjust : State → State) (body : Run Unit) : Run Ending := do
  Builtin.runJobs
  let _ ← takePlace
  let number ← nextNumber
  let (ending, world) := conclude body (adjust (childOf (← get) number))
  goOnIn world
  return ending

/-- The status of a process that the shell has waited for. -/
def statusOf (ending : Ending) : Run Nat := do
  Builtin.tellEnding ending
  return ending.status

/-- A process that begins later, in the world as it is then. -/
def later (conclude : Concluding) (s : State) (body : Run Unit) (world : World) : Ending × World :=
  let disk := world.disk.within s.process.directory
  conclude (do noticeSignals; body) { s with process := { s.process with world := { world with disk } } }

/-- Keys do not interrupt the process. -/
def quiet (s : State) : State :=
  let keys := [Signal.interrupt.number, Signal.quit.number]
  { s with process := { s.process with ignored := keys ++ s.process.ignored } }

/-- Keys do not interrupt the process, and it reads nothing. -/
def detached (s : State) : State :=
  let s := quiet s
  let (handle, world) := s.process.world.addFile { stream := .null, writes := false }
  { s with process := { s.process with world }.point Process.standardInput handle }

/-- Runs commands beside the shell; `adjust` is given their place. -/
def besides (conclude : Concluding) (bodies : List ((State → State) × Run Unit)) : Run Unit := do
  let place ← takePlace
  let mut waiting := []
  let mut number := 0
  let mut isFirst := true
  for (adjust, body) in bodies do
    number ← nextNumber
    let child := childOf (← get) number
    let child := adjust (if isFirst then detached child else quiet child)
    modify fun s =>
      { s with process := { s.process with world := { child.process.world with disk := s.process.world.disk } } }
    waiting := later conclude child body :: waiting
    isFirst := false
  modify fun s =>
    { s with jobs := { place, number, waiting := waiting.reverse } :: s.jobs, lastBeside := some number }

end LocaleForge.Shell
