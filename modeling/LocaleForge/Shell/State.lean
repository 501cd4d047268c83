import LocaleForge.Process.Basic
import LocaleForge.Shell.Syntax

/-!
What a shell keeps between commands, and how commands are left early.
-/

namespace LocaleForge.Shell

/-- A variable. One without a value only has its marks. -/
structure Variable where
  value : Option Bytes
  exported : Bool := false
  readOnly : Bool := false
  /-- It keeps its marks when it loses its value. -/
  isFixed : Bool := false
deriving DecidableEq, Repr

/-- What a function gives back when it ends. -/
inductive Saved where
  | variable (name : Bytes) (before : Option Variable)
  | options (names : List String)

/-- The rest of some commands is left out. -/
inductive Skip where
  | break
  | continue
  /-- Up to the end of a function or file. -/
  | return
  /-- The same, and the status stays. -/
  | bareReturn
deriving DecidableEq, Repr

/-- Commands that run beside the shell. -/
structure Job where
  /-- Its place in the list of jobs, from one on. -/
  place : Nat
  /-- The number of its last process. -/
  number : Nat
  /-- The processes that have not run yet. -/
  waiting : List (World → Ending × World)
  ending : Option Ending := none
  /-- Its end has been told, and its place may be taken. -/
  told : Bool := false

/-- A place among the options that are read one by one. -/
structure OptionPlace where
  index : Nat := 1
  offset : Option Nat := none

/-- A shell. -/
structure State where
  process : Process
  /-- The number that scripts see, which is that of the shell that has started this one. -/
  number : Nat := 1
  name : Bytes
  arguments : List Bytes := []
  vars : List (Bytes × Variable) := []
  /-- What is restored when functions end. -/
  locals : List (List Saved) := []
  functions : List (Bytes × Command) := []
  aliases : List (Bytes × Bytes) := []
  documents : Array Word := #[]
  /-- The options that are set. -/
  options : List String := []
  /-- What signals do, by number; zero stands for the end of the shell. -/
  traps : List (Nat × Bytes) := []
  /-- Signals that have come and are not handled yet. -/
  caught : List Nat := []
  /-- The status of the last command. -/
  status : Nat := 0
  /-- The status with which the shell will end, or that a handler keeps. -/
  finalStatus : Option Nat := none
  /-- The status of the last command within a word. -/
  innerStatus : Nat := 0
  skip : Option Skip := none
  /-- The number of loops that are left. -/
  skipCount : Nat := 0
  loopDepth : Nat := 0
  /-- The line that messages tell. -/
  line : Nat := 1
  /-- The number of functions that run. -/
  calls : Nat := 0
  /-- The builtin command that runs. -/
  command? : Option Bytes := none
  /-- The output that a builtin command has not written yet, in parts, the last one first. -/
  held : List Bytes := []
  jobs : List Job := []
  /-- The last process that was started beside the shell. -/
  lastBeside : Option Nat := none
  optionPlace : OptionPlace := {}
  /-- The logical working directory. -/
  directory : Bytes := []
  mask : Nat := 18
  /-- The text that runs has been read to its end. -/
  isRead : Bool := false
  /-- The words of a trace are being expanded. -/
  tracing : Bool := false
  /-- The places of programs that have been called. -/
  known : List (Bytes × Bytes) := []

/-- Why a command does not run to its end. -/
inductive Jump where
  /-- A fault, of which a message has told. -/
  | failed
  /-- The shell ends with the status of the last command. -/
  | ended
  /-- The shell ends as it was told to. -/
  | exited
  /-- The process is over. -/
  | over (e : Ending)

/-- What a shell does. -/
abbrev Run := EStateM Jump State

/-- The place of a name in a table with so many rows, in which names are listed. -/
def row (rows : Nat) (name : Bytes) : Nat :=
  ((name.headD '\x00').toNat * 16 + name.foldl (fun n c => n + c.toNat) 0) % 32768 % rows

/-- Pairs in the order of the rows of their names; those that came first stand first in a row. -/
def inRows (rows : Nat) (pairs : List (Bytes × Bytes)) : List (Bytes × Bytes) :=
  (List.range rows).flatMap fun k => pairs.reverse.filter fun p => row rows p.1 = k

namespace State

def has (s : State) (option : String) : Bool :=
  s.options.contains option

def get? (s : State) (name : Bytes) : Option Variable :=
  s.vars.lookup name

/-- The value of a variable. -/
def value? (s : State) (name : Bytes) : Option Bytes :=
  (s.get? name).bind (·.value)

def value (s : State) (name : Bytes) : Bytes :=
  (s.value? name).getD []

/-- Gives a variable its value and marks; it keeps its place among the others. -/
def putVariable (s : State) (name : Bytes) (v : Variable) : State :=
  { s with
    vars :=
      if (s.get? name).isSome then s.vars.map fun w => if w.1 = name then (name, v) else w
      else (name, v) :: s.vars }

def eraseVariable (s : State) (name : Bytes) : State :=
  { s with vars := s.vars.filter (·.1 ≠ name) }

/-- The bytes that divide fields. -/
def dividers (s : State) : Bytes :=
  (s.value? "IFS").getD [' ', '\t', '\n']

/-- The variables of programs that are started. -/
def environment (s : State) : List (Bytes × Bytes) :=
  inRows 39 (s.vars.filterMap fun (name, v) => if v.exported then v.value.map (name, ·) else none)

/-- The action that is set for a signal. -/
def trap? (s : State) (signal : Nat) : Option Bytes :=
  s.traps.lookup signal

def setTrap (s : State) (signal : Nat) (action : Option Bytes) : State :=
  let others := s.traps.filter (·.1 ≠ signal)
  { s with traps := action.elim others fun a => (signal, a) :: others }

/-- Some signal, or the end of the shell, does something. -/
def hasTraps (s : State) : Bool :=
  s.traps.any fun t => !t.2.isEmpty

def setOption (s : State) (name : String) (on : Bool) : State :=
  let others := s.options.filter (· ≠ name)
  { s with options := if on then name :: others else others }

end State

/-- Does something with the process of the shell. -/
def onProcess {α : Type} (a : Action α) : Run α :=
  modifyGet fun s =>
    let (r, process) := a s.process
    (r, { s with process })

/-- Writes to standard error. -/
def printError (bs : Bytes) : Run Unit := do
  let _ ← onProcess (Process.write Process.standardError bs)

/-- A message with its place in front. -/
def placed (s : State) (message : Bytes) : Bytes :=
  let command := match s.command? with
    | some c => c ++ ": "
    | none => []
  s.name ++ ": " ++ Bytes.ofNat s.line ++ ": " ++ command ++ message ++ ['\n']

def warn (message : Bytes) : Run Unit := do
  printError (placed (← get) message)

/-- Gives up with a message. -/
def fail {α : Type} (message : Bytes) : Run α := do
  modify fun s => { s with status := 2 }
  warn message
  throw .failed

/-- Keeps output until the builtin command ends. -/
def print (bs : Bytes) : Run Unit :=
  modify fun s => { s with held := bs :: s.held }

/-- What a shell says of a fault. -/
def describe (missing : String) (e : Disk.Fault) : Bytes :=
  match e with
  | .notFound | .notDirectory => missing
  | e => Bytes.ofFault e

end LocaleForge.Shell
