import LocaleForge.Shell.Simple

/-!
Running commands: each kind of command runs its parts, for which it is given what runs them. Words, which lie
as deep as commands can, bound how deep they may call each other.
-/

namespace LocaleForge.Shell

namespace Command

/-- A failure of the command counts for the option that ends the shell upon failures. -/
def isChecked : Command → Bool
  | .simple .. | .pipeline .. | .background .. | .subshell .. => true
  | _ => false

end Command

namespace Eval

/-- The shell has come to a line. -/
def reach (line : Nat) : Run Unit :=
  modify fun s => { s with line }

/-- What becomes of a loop behind a round of it: it goes on, or ends. A skip of one loop ends here. -/
def endRound : Run (Option Skip) :=
  modifyGet fun s =>
    match s.skip with
    | some .break | some .continue =>
      if s.skipCount ≤ 1 then (s.skip, { s with skip := none, skipCount := 0 })
      else (some .break, { s with skipCount := s.skipCount - 1 })
    | skip => (skip, s)

/-- Runs the rounds of a loop; `n` bounds their number. -/
def rounds (run : Evaluate) (p : Position) (inverted : Bool) (test body : Command) (n : Nat) (status : Nat) :
    Run Nat := do
  match n with
  | 0 => return status
  | n + 1 =>
    let tested ← run { isTested := true } test
    match ← endRound with
    | some .continue => rounds run p inverted test body n status
    | some .break => return status
    | some .return => return tested
    | some .bareReturn => return status
    | none =>
      if (tested = 0) = inverted then return status
      else
        let status ← run p.inner body
        match ← endRound with
        | none | some .continue => rounds run p inverted test body n status
        | some _ => return status

/-- Runs a command for each of some values. -/
def forEach (run : Evaluate) (p : Position) (variableName : Bytes) (body : Command) (status : Nat) :
    List Bytes → Run Nat
  | [] => return status
  | value :: values => do
    setVariable variableName (some value) false false false
    let status ← run p.inner body
    match ← endRound with
    | none | some .continue => forEach run p variableName body status values
    | some _ => return status

/-- Does something within one more loop. -/
def inLoop (body : Run Nat) : Run Nat := do
  modify fun s => { s with loopDepth := s.loopDepth + 1 }
  let status ← body
  modify fun s => { s with loopDepth := s.loopDepth - 1 }
  return status

/-- One of some patterns accepts a text. -/
def matchesAny (capture : Capture) (text : Bytes) : List Word → Run Bool
  | [] => return false
  | w :: ws => do
    if Wildcard.acceptsText (← Expansion.pattern capture w) text then return true
    else matchesAny capture text ws

/-- Runs the first clause that has a pattern for a text. -/
def choose (run : Evaluate) (p : Position) (text : Bytes) :
    List (List Word × Option Command) → Run Nat
  | [] => return 0
  | (patterns, action) :: clauses => do
    if ← matchesAny (Script.capture run) text patterns then
      match action with
      | some c => run p c
      | none => return 0
    else choose run p text clauses

/-- Where the standard input and output of a process lead. -/
structure Ends where
  input : Option Nat
  output : Option Nat

def Ends.connect (e : Ends) (s : State) : State :=
  let point (descriptor : Nat) (handle : Option Nat) (p : Process) : Process :=
    handle.elim p (p.point descriptor)
  { s with process := point Process.standardOutput e.output (point Process.standardInput e.input s.process) }

/-- The ends of so many processes, each of which reads what the one before it writes. -/
def connect (input : Option Nat) : Nat → Run (List Ends)
  | 0 => return []
  | 1 => return [⟨input, none⟩]
  | n + 2 => do
    let ((front, back), world) := (← get).process.world.addPipe []
    modify fun s => { s with process := { s.process with world } }
    return ⟨input, some back⟩ :: (← connect (some front) (n + 1))

/-- Runs commands that are joined by pipes, one after the other. -/
def inTurn (run : Evaluate) (p : Position) (status : Nat) : List (Command × Ends) → Run Nat
  | [] => return status
  | (c, ends) :: rest => do
    let ending ← inChild (Script.conclude run) ends.connect do
      let _ ← run { p with isLast := true } c
    inTurn run p (← statusOf ending) rest

/-- Lets the shell have its commands run in a process of their own. -/
def runSubshell (run : Evaluate) (p : Position) (body : Command) (redirections : List Redirection) : Run Nat := do
  let capture := Script.capture run
  let turns ← redirections.mapM (Turn.ofRedirection capture)
  let all : Run Unit := do
    turns.forM (Turn.perform capture false)
    let _ ← run { p with isLast := true } body
  if p.isLast && !(← get).hasTraps then
    all
    return (← get).status
  else statusOf (← inChild (Script.conclude run) id all)

/-- Runs a command while its descriptors lead elsewhere. -/
def runRedirected (run : Evaluate) (p : Position) (body : Command) (redirections : List Redirection) : Run Nat := do
  let capture := Script.capture run
  let turns ← redirections.mapM (Turn.ofRedirection capture)
  let earlier ← get
  try
    if ← Turn.performAll capture turns then run p.inner body else return 2
  finally
    Turn.undoAll earlier turns

/-- Runs a command whose parts have run before; its status is that of the last one. -/
def runLast (run : Evaluate) (p : Position) (c : Command) : Run Nat := do
  let status ← run p c
  Simple.settle status

/-- Runs a command, the parts of which `run` runs. -/
def step (run : Evaluate) (p : Position) (c : Command) : Run Nat := do
  let capture := Script.capture run
  let conclude := Script.conclude run
  match c with
  | .simple line assignments words redirections =>
    reach line
    let status ← Simple.runSimple run p assignments words redirections
    Simple.settle status
  | .pipeline isBackground commands =>
    let parts := commands.zip (← connect none commands.length)
    if isBackground then
      besides conclude (parts.map fun (c, ends) => (ends.connect, do let _ ← run { isLast := true } c))
      Simple.settle 0
    else
      let status ← inTurn run p 0 parts
      Simple.settle status
  | .redirected line body redirections =>
    reach line
    let status ← runRedirected run p body redirections
    Simple.settle status
  | .background line body redirections =>
    if line ≠ 0 then reach line
    let turns ← redirections.mapM (Turn.ofRedirection capture)
    let all : Run Unit := do
      turns.forM (Turn.perform capture false)
      let _ ← run { isLast := true } body
    besides conclude [(id, all)]
    Simple.settle 0
  | .subshell line body redirections =>
    reach line
    let status ← runSubshell run p body redirections
    Simple.settle status
  | .negated body =>
    let status ← run { isTested := true } body
    Simple.settle (if status = 0 then 1 else 0)
  | .both first second =>
    let status ← run { isTested := true } first
    if status ≠ 0 || (← get).skip.isSome then return status else runLast run p second
  | .either first second =>
    let status ← run { isTested := true } first
    if status = 0 || (← get).skip.isSome then return status else runLast run p second
  | .sequence first second =>
    let status ← run p.inner first
    if (← get).skip.isSome then return status else runLast run p second
  | .branch test positive negative =>
    let status ← run { isTested := true } test
    if (← get).skip.isSome then return status
    else if status = 0 then runLast run p positive
    else
      match negative with
      | some c => runLast run p c
      | none => Simple.settle 0
  | .loop inverted test body =>
    let status ← inLoop (rounds run p inverted test body Reader.maxSteps 0)
    Simple.settle status
  | .iterate line variableName words body =>
    reach line
    let values ← Expansion.allFields capture words
    let status ← inLoop (forEach run p variableName body 0 values)
    Simple.settle status
  | .select line subject clauses =>
    reach line
    let text ← Expansion.text capture subject
    let status ← choose run p text clauses
    Simple.settle status
  | .define name body =>
    modify fun s => { s with functions := (name, body) :: s.functions.filter (·.1 ≠ name) }
    Simple.settle 0

/-- Runs a command between the handlers of signals; a failure may end the shell. -/
def within (run : Evaluate) (p : Position) (c : Command) : Run Nat := do
  let status ←
    if (← get).has "noexec" then pure 0
    else do
      Script.handleSignals run
      step run p c
  Script.handleSignals run
  let isFatal := (← get).has "errexit" && c.isChecked && !p.isTested && status ≠ 0
  if isFatal || p.isLast then throw .ended else return status

/-- Runs a command; `n` bounds how deep commands lie in each other. -/
def commandUpTo : Nat → Evaluate
  | 0 => fun _ _ => throw (.over (.signalled ⟨11⟩))
  | n + 1 => fun p c => within (commandUpTo n) p c

/-- A bound for the depth of commands, beyond which a shell has no memory for them. -/
def maxDepth := 10000

/-- Runs a command. -/
def command : Evaluate :=
  commandUpTo maxDepth

end Eval

end LocaleForge.Shell
