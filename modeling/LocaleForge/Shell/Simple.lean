import LocaleForge.Shell.Commands
import LocaleForge.Shell.Redirect
import LocaleForge.Shell.Start

/-!
Simple commands: assignments, words and redirections. The first words tell what the command is; its
redirections come before its assignments, and both are undone when it has run.
-/

namespace LocaleForge.Shell

namespace Simple

/-- A command whose words are being expanded. -/
structure Expanding where
  /-- The fields in front of the name of the command, the last one first. -/
  passed : List Bytes := []
  /-- The fields that are known, from the name of the command on. -/
  fields : List Bytes
  /-- The words that have not been expanded. -/
  words : List Word
  /-- The directories in which a program is looked for. -/
  searched : Option Bytes := none
  /-- The name may be that of a function. -/
  functions : Bool := true

/-- A command that is ready to run. -/
structure Invocation where
  /-- All fields, as a trace tells them. -/
  traced : List Bytes := []
  /-- What the first of the fields stands for; a command may have no fields. -/
  meaning : Option Meaning := none
  fields : List Bytes := []
  searched : Option Bytes := none
  /-- Its failures end the shell, and its assignments stay. -/
  isSpecial : Bool := false

/-- Its redirections stay. -/
def Invocation.keepsFiles (i : Invocation) : Bool :=
  match i.meaning with
  | some (.builtin .exec) => true
  | _ => false

/-- Its assignments are undone. -/
def Invocation.isLocal (i : Invocation) : Bool :=
  i.meaning.isSome && !i.isSpecial

/-- The fields of the first word that has some, and the words behind it. -/
def firstFields (capture : Capture) : List Word → Run (List Bytes × List Word)
  | [] => return ([], [])
  | w :: ws => do
    let fields ← Expansion.fields capture w
    if fields.isEmpty then firstFields capture ws else return (fields, ws)

/-- Goes behind the name and the options of the command that runs others; false if it does not run one.
`n` bounds the options, and `front` are the fields passed so far, the last one first. -/
def passCommand (capture : Capture) (n : Nat) (front : List Bytes) (e : Expanding) : Run (Bool × Expanding) := do
  let (fields, words) ← if e.fields.isEmpty then firstFields capture e.words else pure (e.fields, e.words)
  let e := { e with fields, words }
  let stay (e : Expanding) : Bool × Expanding := (false, { e with fields := front.reverse ++ e.fields })
  let pass (front : List Bytes) (e : Expanding) : Bool × Expanding :=
    (true, { e with passed := front ++ e.passed, functions := false })
  match n, fields with
  | n + 1, field :: rest =>
    match field with
    | '-' :: c :: cs =>
      if field = ['-', '-'] then
        let (rest, words) ← if rest.isEmpty then firstFields capture words else pure (rest, words)
        if rest.isEmpty then return stay { e with words }
        else return pass (field :: front) { e with fields := rest, words }
      else if (c :: cs).all (· = 'p') then
        passCommand capture n (field :: front) { e with fields := rest, searched := some Program.defaultPath }
      else return stay e
    | _ => return pass front e
  | _, _ => return stay e

/-- Looks up what the name of a command stands for; `n` bounds the commands that run others. -/
def lookUp (capture : Capture) (n : Nat) (isFirst : Bool) (e : Expanding) : Run (Meaning × Bool × Expanding) := do
  let name := e.fields.headD []
  match n, meaning (← get) e.functions name with
  | n + 1, .builtin .command =>
    let (goesOn, e) ← passCommand capture maxDepth [name] { e with fields := e.fields.tail }
    if goesOn then lookUp capture n false e else return (.builtin .command, false, e)
  | _, .builtin b => return (.builtin b, isFirst && isSpecial name, e)
  | _, m => return (m, false, e)
where
  maxDepth := 1000000

/-- Expands the words of a command that has been looked up. -/
def expandRest (capture : Capture) (keeps : Bool) : List Word → Run (List Bytes)
  | [] => return []
  | w :: ws => do
    let front ←
      if keeps && Word.isAssignment w then do
        let (name, value) ← Expansion.assigned capture w
        pure [name ++ '=' :: value]
      else Expansion.fields capture w
    return front ++ (← expandRest capture keeps ws)

/-- Expands words, and finds out which command they call. -/
def invocation (capture : Capture) (words : List Word) : Run Invocation := do
  let (fields, words) ← firstFields capture words
  if fields.isEmpty then return {}
  let (m, isSpecial, e) ← lookUp capture 1000000 true { fields, words }
  let keeps := match m with
    | .builtin _ => keepsAssignments (e.fields.headD [])
    | _ => false
  let fields := e.fields ++ (← expandRest capture keeps e.words)
  return { traced := e.passed.reverse ++ fields, meaning := some m, fields, searched := e.searched, isSpecial }

/-- Makes an assignment, and gives its text. -/
def assign (capture : Capture) (i : Invocation) (w : Word) : Run Bytes := do
  let (name, value) ← Expansion.assigned capture w
  if i.isLocal then makeLocal name (some value) true
  else setVariable name (some value) (i.keepsFiles && 1 < i.fields.length) false false
  return name ++ '=' :: value

/-- What stands in front of a traced command. Commands in it are not read when the text that runs has been read
to its end. -/
def traceFront (capture : Capture) : Run Bytes := do
  let s ← get
  let text := s.value "PS4"
  let reading : Reading :=
    { frames := [{ text }]
      aliases := s.aliases
      documents := s.documents
      pushedBack := s.isRead
      token := .endOfFile }
  match Reader.doubled reading with
  | .error message r =>
    modify fun s => { s with line := r.line }
    warn message
    return text
  | .ok word r =>
    modify fun s => { s with documents := r.documents, tracing := true }
    let front ← Expansion.document capture word
    modify fun s => { s with tracing := false }
    return front

/-- Tells a command before it runs, where errors were told in an earlier state. -/
def trace (capture : Capture) (earlier : State) (fields : List Bytes) : Run Unit := do
  let s ← get
  if s.has "xtrace" && !s.tracing then
    let line := (← traceFront capture) ++ Bytes.spaced fields ++ ['\n']
    match earlier.process.handle? Process.standardError with
    | none => return
    | some handle =>
      modify fun s => { s with process := { s.process with world := (s.process.world.write handle line).2 } }

/-- The last command has this status. -/
def settle (status : Nat) : Run Nat := do
  modify fun s => { s with status }
  return status

/-- Runs what a builtin command does, apart from its output. -/
def perform (run : Evaluate) (p : Position) (b : Builtin) (name : Bytes) (args : List Bytes) : Run Nat := do
  match b with
  | .plain f => f name args
  | .command => tellByOptions args
  | .eval => if args.isEmpty then return 0 else Script.runText run p.inner (Bytes.spaced args)
  | .exec =>
    match ← operands args with
    | [] => return 0
    | name :: args =>
      let s ← get
      let places :=
        if name.contains '/' then [name]
        else
          match Program.search s.process.world.disk (s.value "PATH") name with
          | .ok places => places
          | .error _ => []
      Start.inPlace run name args places
  | .source =>
    match ← operands args with
    | [] => return 0
    | name :: _ =>
      let s ← get
      let file ←
        if name.contains '/' then pure name
        else
          match (Program.places (s.value "PATH") name).find? fun f => s.process.world.disk.isFile (Bytes.toPath f) with
          | some file => pure file
          | none => fail (name ++ ": not found")
      match ← onProcess (Process.readPath file) with
      | .ok content =>
        modify fun s => { s with command? := some file }
        Script.runContent run content
      | .error .isDirectory => return 0
      | .error e => fail ("cannot open " ++ file ++ ": " ++ describe "No such file" e)

/-- Writes the output of a builtin command; the status tells whether it could be written. -/
def writeHeld (name : Bytes) (status : Nat) : Run Nat := do
  let output := (← modifyGet fun s => (s.held, { s with held := [] })).reverse.flatten
  if output.isEmpty then return status
  match ← onProcess (Process.write Process.standardOutput output) with
  | .ok () => return status
  | .error _ =>
    warn (name ++ ": I/O error")
    return status ||| 1

/-- Runs a builtin command. Its failure is only a status unless it is special. -/
def runBuiltin (run : Evaluate) (p : Position) (i : Invocation) (b : Builtin) : Run Nat := do
  let outer := (← get).command?
  let name := i.fields.headD []
  modify fun s => { s with command? := some name, held := [] }
  try
    let status ← perform run p b name i.fields.tail
    settle (← writeHeld name status)
  catch jump =>
    modify fun s => { s with held := [] }
    match jump with
    | .failed => if i.isSpecial then throw jump else return (← get).status
    | _ => throw jump
  finally
    modify fun s => { s with command? := outer }

/-- How many functions may call each other. -/
def maxCalls := 1000

/-- Runs a function. -/
def runFunction (run : Evaluate) (p : Position) (body : Command) (args : List Bytes) : Run Nat := do
  let s ← get
  if maxCalls ≤ s.calls then
    fail ("Maximum function recursion depth (" ++ Bytes.ofNat maxCalls ++ ") reached")
  set { s with arguments := args, optionPlace := {}, calls := s.calls + 1, loopDepth := 0 }
  try
    let _ ← run p.inner body
  finally
    modify fun t =>
      { t with arguments := s.arguments, optionPlace := s.optionPlace, calls := s.calls, loopDepth := s.loopDepth }
    Script.arrive
  return (← get).status

/-- Runs a program. -/
def runProgram (run : Evaluate) (p : Position) (i : Invocation) : Run Nat := do
  let name := i.fields.headD []
  let places ←
    if name.contains '/' then pure [name]
    else placesOf name (i.searched.getD ((← get).value "PATH"))
  if places.isEmpty then settle 127
  else
    let start : Run Unit := Start.inPlace run name i.fields.tail places
    if p.isLast && !(← get).hasTraps then
      start
      return 0
    else
      let ending ← inChild (Script.conclude run) id start
      settle (← statusOf ending)

/-- Runs a simple command whose words have been expanded. -/
def runInvocation (run : Evaluate) (p : Position) (i : Invocation) : Run Nat := do
  match i.meaning with
  | none => settle (← get).innerStatus
  | some (.builtin b) => runBuiltin run p i b
  | some (.function body) => runFunction run p body i.fields.tail
  | some .program => runProgram run p i

/-- Runs a simple command. -/
def runSimple (run : Evaluate) (p : Position) (assignments words : List Word) (redirections : List Redirection) :
    Run Nat := do
  modify fun s => { s with innerStatus := 0 }
  let capture := Script.capture run
  let i ← invocation capture words
  let depth := (← get).locals.length
  if i.isLocal then modify fun s => { s with locals := [] :: s.locals }
  let turns ← redirections.mapM (Turn.ofRedirection capture)
  let earlier ← get
  try
    if ← Turn.performAll capture turns then
      let assigned ← assignments.mapM (assign capture i)
      trace capture earlier (assigned ++ i.traced)
      runInvocation run p i
    else
      let status ← settle 2
      if i.isSpecial then throw .failed else return status
  finally
    if !i.keepsFiles then Turn.undoAll earlier turns
    restoreTo depth

end Simple

end LocaleForge.Shell
