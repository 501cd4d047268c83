import LocaleForge.Shell.Variables

/-!
Signals: which actions a shell has set for them, and what happens when they come.
-/

namespace LocaleForge.Shell

/-- Signals by number up to the bound, with zero for the end of the shell. -/
def signals : List Signal :=
  (List.range Signal.bound).map Signal.mk

/-- The signal that a number or a name stands for, from a least number on for names. -/
def signal? (least : Nat) (bs : Bytes) : Option Nat :=
  if Decimal.isNumeral bs then
    let n := Decimal.ofDigits 10 bs
    if n < Signal.bound then some n else none
  else
    let upper := String.ofList (bs.map Char.toUpper)
    ((signals.drop least).find? fun s => s.shellName.toUpper = upper).map (·.number)

/-- A signal reaches the shell. -/
def notice (signal : Signal) : Run Unit := do
  let s ← get
  if signal.number = 0 then return
  match (if signal.isForced then none else s.trap? signal.number) with
  | some [] => return
  | some _ => modify fun s => { s with caught := signal.number :: s.caught.filter (· ≠ signal.number) }
  | none =>
    if signal.isHarmless || !signal.isForced && s.process.ignored.contains signal.number then return
    else throw (.over (.signalled signal))

/-- Signals that have come for the shell reach it. -/
def noticeSignals : Run Unit := do
  let came ← modifyGet fun s =>
    let (came, world) := s.process.world.takeSignals s.process.number
    (came, { s with process := { s.process with world } })
  came.forM notice

/-- Sends a signal to a process. -/
def send (number : Nat) (signal : Signal) : Run Unit := do
  modify fun s =>
    let world := s.process.world
    { s with process := { s.process with world := { world with signals := world.signals ++ [(number, signal)] } } }
  noticeSignals

/-- The options at the front of arguments: letters, some of which take a value. -/
def optionsOf (n : Nat) (letters : List (Char × Bool)) (args : List Bytes) :
    Run (List (Char × Bytes) × List Bytes) := do
  match n, args with
  | n + 1, ('-' :: c :: cs) :: rest =>
    if c = '-' && cs.isEmpty then return ([], rest)
    match letters.lookup c with
    | none => fail ("Illegal option -" ++ [c])
    | some false =>
      let (os, rest) ← optionsOf n letters (if cs.isEmpty then rest else ('-' :: cs) :: rest)
      return ((c, []) :: os, rest)
    | some true =>
      match (if cs.isEmpty then rest else cs :: rest) with
      | [] => fail ("No arg for -" ++ [c] ++ " option")
      | value :: rest =>
        let (os, rest) ← optionsOf n letters rest
        return ((c, value) :: os, rest)
  | _, _ => return ([], args)

/-- An upper bound for the number of letters in some arguments. -/
def letterCount (args : List Bytes) : Nat :=
  args.flatten.length + args.length

/-- The options of a builtin command, and its operands. -/
def optionsIn (letters : List (Char × Bool)) (args : List Bytes) : Run (List (Char × Bytes) × List Bytes) :=
  optionsOf (letterCount args) letters args

/-- The operands of a builtin command without options. -/
def operands (args : List Bytes) : Run (List Bytes) := do
  return (← optionsIn [] args).2

/-- Sets what signals do, or tells. -/
def trap (args : List Bytes) : Run Nat := do
  match ← operands args with
  | [] =>
    let s ← get
    for signal in signals do
      match s.trap? signal.number with
      | some action => print ("trap -- " ++ quoted action ++ ' ' :: (signal.shellName : Bytes) ++ ['\n'])
      | none => pure ()
    return 0
  | [name] => setAll none [name]
  | action :: names =>
    if (signal? Signal.bound action).isSome then setAll none (action :: names)
    else setAll (if action = ['-'] then none else some action) names
where
  setAll (action : Option Bytes) : List Bytes → Run Nat
    | [] => return 0
    | name :: names => do
      match signal? 0 name with
      | none =>
        printError ("trap: " ++ name ++ ": bad trap\n")
        return 1
      | some n =>
        modify (·.setTrap n action)
        setAll action names

/-- The process or the processes that an operand of a builtin command stands for. -/
def target (s : State) (operand : Bytes) : Run Nat := do
  match operand with
  | '%' :: _ =>
    match s.jobs.head? with
    | some j => return j.number
    | none => fail ("No such job: " ++ operand)
  | '-' :: cs => numberOf cs
  | _ => numberOf operand

/-- The process has been started and its end not been noticed. -/
def isKnown (s : State) (number : Nat) : Bool :=
  number = s.number || number = s.process.number || s.jobs.any (·.number = number) ||
    (s.value? "PPID" = some (Bytes.ofNat number))

/-- Sends signals to processes, or tells the names of signals. -/
def kill (args : List Bytes) : Run Nat := do
  let usage : Run Nat := fail
    "Usage: kill [-s sigspec | -signum | -sigspec] [pid | job]... or\nkill -l [exitstatus]"
  let given? := match args with
    | ('-' :: name) :: _ => signal? 1 name
    | _ => none
  let (signal?, list, rest) ←
    match args, given? with
    | _ :: rest, some n => pure (some n, false, rest)
    | ('-' :: _) :: _, none => do
      let (os, rest) ← optionsIn [('l', false), ('s', true)] args
      let signal? ← match os.reverse.lookup 's' with
        | none => pure none
        | some name =>
          match signal? 1 name with
          | some n => pure (some n)
          | none => fail ("invalid signal number or name: " ++ name)
      pure (signal?, (os.lookup 'l').isSome, rest)
    | _, _ => pure (none, false, args)
  if list then
    if signal?.isSome then usage
    else
      match rest with
      | [] =>
        print "0\n"
        for s in signals.tail do
          print ((s.shellName : Bytes) ++ ['\n'])
        return 0
      | status :: _ =>
        let n ← numberOf status
        let n := if n > 128 then n - 128 else n
        if 0 < n && n < Signal.bound then
          print ((Signal.shellName ⟨n⟩ : Bytes) ++ ['\n'])
          return 0
        else fail ("invalid signal number or exit status: " ++ status)
  else if rest.isEmpty then usage
  else sendAll ⟨signal?.getD 15⟩ 0 rest
where
  sendAll (signal : Signal) (status : Nat) : List Bytes → Run Nat
    | [] => return status
    | operand :: more => do
      let s ← get
      let n ← target s operand
      if isKnown s n then
        send n signal
        sendAll signal status more
      else
        warn "No such process\n"
        sendAll signal 1 more

end LocaleForge.Shell
