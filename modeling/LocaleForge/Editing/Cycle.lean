import LocaleForge.Editing.Editor
import LocaleForge.Editing.Substitute

/-!
Editing line by line: each line goes through the whole script.
-/

namespace LocaleForge.Editing

/-- Runs a shell command and gives its output. -/
abbrev Interpreter := Bytes → Action Bytes

namespace Edit

def lineEnd : Edit Char :=
  return (← get).manner.lineEnd

/-- The pattern, or the one that was used last. -/
def use (p : Option Regex.Pattern) : Edit Regex.Pattern := do
  match p with
  | some p =>
    modify ({ · with lastPattern := some p })
    return p
  | none =>
    match (← get).lastPattern with
    | some p => return p
    | none => throw (.fault .noPattern)

/-- The line is the one that an address names. -/
def isAt (a : Address) : Edit Bool := do
  match a with
  | .line n => return (← get).lineNumber = n
  | .steps first step =>
    let n := (← get).lineNumber
    return first ≤ n && (n - first) % step = 0
  | .last => isLast
  | .found p => return (← use p).isIn (List.toArray (← get).line.text)

def setRange (index : Nat) (state : RangeState) : Edit Unit :=
  modify fun e => { e with ranges := e.ranges.setIfInBounds index state }

/-- The line is one of those selected for the command at an index. -/
def isSelected (index : Nat) (s : Selection) : Edit Bool := do
  match s with
  | .all => return true
  | .single a => isAt a
  | .range first last =>
    let line := (← get).lineNumber
    match ((← get).ranges[index]?).getD .waiting with
    | .open stop =>
      let (ends, belongs) : Bool × Bool ← match stop, last with
        | some n, .address _ => pure (n ≤ line, line ≤ n)
        | some n, _ => pure (n ≤ line, true)
        | none, .address a => pure (← isAt a, true)
        | none, _ => pure (false, true)
      if ends then setRange index .closed
      return belongs
    | state =>
      let begins : Bool ← match first with
        | .line n => pure (state ≠ .closed && n ≤ line)
        | a => isAt a
      if !begins then return false
      let stop : Option Nat ← match last with
        | .address (.line n) => pure (some n)
        | .address (.steps first step) => pure (if ← isAt (.steps first step) then some line else none)
        | .address _ => pure none
        | .later n => pure (some (line + n))
        | .multiple 0 => pure (some line)
        | .multiple n => pure (some (line + n - line % n))
      setRange index (if stop.any (· ≤ line) then .closed else .open stop)
      match first, stop with
      | .line k, some n => return k = line || line ≤ n
      | _, _ => return true

/-- Is in the middle of its range. -/
def isOpen (index : Nat) : Edit Bool := do
  match (← get).ranges[index]? with
  | some (.open _) => return true
  | _ => return false

def setText (text : Bytes) : Edit Unit :=
  modify fun e => { e with line := { e.line with text } }

/-- The text unambiguously, without the end of the line. -/
def listed (c : Char) : Bytes :=
  if c = '\\' then ['\\', '\\']
  else if ByteClass.print.holds c then [c]
  else
    match [('\x07', 'a'), ('\x08', 'b'), ('\x0c', 'f'), ('\n', 'n'), ('\x0d', 'r'), ('\t', 't'),
        ('\x0b', 'v')].lookup c with
    | some l => ['\\', l]
    | none => '\\' :: Bytes.octal c

/-- Parts of a list, cut into lines of a width; zero stands for no bound. -/
def wrapped (stop : Char) (width column : Nat) : List Bytes → Bytes
  | [] => []
  | p :: ps =>
    if 0 < width && width < column + p.length then '\\' :: stop :: p ++ wrapped stop width p.length ps
    else p ++ wrapped stop width (column + p.length) ps

def list (width : Option Nat) : Edit Unit := do
  let e ← get
  let stop := e.manner.lineEnd
  let parts := e.line.text.map listed
  print .main (wrapped stop (width.getD e.manner.width - 1) 0 parts ++ ['$', stop])

/-- A line with another behind it. -/
def joined (l other : Line) : Edit Line :=
  return { other with text := l.text ++ (← lineEnd) :: other.text }

/-- The first line of the text. -/
def firstLine : Edit Line := do
  let stop ← lineEnd
  let line := (← get).line
  return if line.text.contains stop then { text := line.text.takeWhile (· ≠ stop) } else line

def outletOf (t : Target) : Outlet :=
  .beside t

/-- Runs a command; all that was printed comes before its output. -/
def runCommand (shell : Interpreter) (command : Bytes) : Edit Bytes := do
  let bs := (← get).printed.reverse.flatten
  modify ({ · with printed := [] })
  let _ ← act (Process.write Process.standardOutput bs)
  act (shell command)

/-- The text without the end of its last line. -/
def unended (bs : Bytes) : Edit Bytes := do
  let stop ← lineEnd
  return if bs.getLast? = some stop then bs.dropLast else bs

def substitute (shell : Interpreter) (s : Substitution) : Edit Unit := do
  let p ← use s.pattern
  let groups := (s.pieces.filterMap Piece.group).foldl max 0
  if p.groups < groups then throw (.fault (.missingGroup groups))
  match s.apply p (← get).line.text with
  | none => return
  | some text =>
    setText text
    modify ({ · with substituted := true })
    if s.runs then
      if s.prints = .beforeRunning then printLine .main (← get).line
      setText (← unended (← runCommand shell text))
    if s.prints = .afterwards || (s.prints = .beforeRunning && !s.runs) then printLine .main (← get).line
    match s.target with
    | some t => printLine (outletOf t) (← get).line
    | none => return

/-- Takes the next line of a file that is read line by line. -/
def takeLine (name : Bytes) : Edit Unit := do
  let e ← get
  let stop := e.manner.lineEnd
  match e.sources.lookup name with
  | none | some [] => return
  | some bs =>
    let text := bs.takeWhile (· ≠ stop)
    let line := bs.take (text.length + 1)
    set { e with
      sources := (name, bs.drop line.length) :: e.sources.filter (·.1 ≠ name)
      appendices := .text line :: e.appendices }

/-- How the work on a line goes on behind a command. -/
inductive Progress where
  | onwards
  | goTo (index : Nat)
  /-- The work is done; the line is printed unless the script is silent. -/
  | done (prints : Bool)
  /-- The script starts again without another line. -/
  | again
  /-- There is no other line. -/
  | over

def autoprint : Edit Unit := do
  if !(← get).manner.silent then printLine .main (← get).line

/-- Carries out the act of the command at an index. -/
def perform (shell : Interpreter) (index : Nat) (a : Act) : Edit Progress := do
  let e ← get
  let line := e.line
  match a with
  | .nothing => return .onwards
  | .goTo i => return .goTo i
  | .jump condition label =>
    let jumps := match condition with
      | .always => true
      | .substituted => e.substituted
      | .notSubstituted => !e.substituted
    if condition ≠ .always then modify ({ · with substituted := false })
    if !jumps then return .onwards
    return .goTo ((e.script.labels.lookup label).getD e.script.instructions.size)
  | .append text => modify ({ · with appendices := .text text :: e.appendices })
  | .insert text => printText text
  | .change text =>
    if !(← isOpen index) then printText text
    return .done false
  | .delete => return .done false
  | .deleteFirst =>
    match line.text.dropWhile (· ≠ e.manner.lineEnd) with
    | [] => return .done false
    | _ :: rest =>
      setText rest
      return .again
  | .run [] => setText (← unended (← runCommand shell line.text))
  | .run command =>
    let bs ← runCommand shell command
    print .main bs
  | .fileName => print .main (e.fileName ++ [e.manner.lineEnd])
  | .lineNumber => print .main (Bytes.ofNat e.lineNumber ++ [e.manner.lineEnd])
  | .get => modify ({ · with line := e.held })
  | .getMore => modify ({ · with line := ← joined line e.held })
  | .hold => modify ({ · with held := line })
  | .holdMore => modify ({ · with held := ← joined e.held line })
  | .exchange => modify ({ · with line := e.held, held := line })
  | .clear => setText []
  | .list width => list width
  | .next =>
    if ← isLast then return .done true
    autoprint
    if !(← readLine false) then return .over
  | .nextMore =>
    if ← isLast then return .done true
    if !(← readLine true) then return .over
  | .print => printLine .main line
  | .printFirst => printLine .main (← firstLine)
  | .quit prints status =>
    if prints then
      autoprint
      endLine .main
      printAppendices
    throw (.quit status)
  | .appendFile name => modify ({ · with appendices := .file name :: e.appendices })
  | .appendLine name => takeLine name
  | .substitute s => substitute shell s
  | .write t => printLine (outletOf t) line
  | .writeFirst t => printLine (outletOf t) (← firstLine)
  | .translate table => setText (line.text.map fun c => (table.lookup c).getD c)
  return .onwards

/-- Goes through the script from the command at an index on. `n` bounds the number of commands. -/
def goThrough (shell : Interpreter) (n index : Nat) : Edit Progress := do
  match n with
  | 0 => return .over
  | n + 1 =>
    match (← get).script.instructions[index]? with
    | none => return .done true
    | some i =>
      if (← isSelected index i.selection) = i.negated then goThrough shell n (index + 1)
      else
        match ← perform shell index i.act with
        | .onwards => goThrough shell n (index + 1)
        | .goTo index => goThrough shell n index
        | .again => goThrough shell n 0
        | other => return other

/-- The most commands that are carried out for one line. -/
def maxCommands := 100000000

/-- Edits all lines; `n` bounds their number. -/
def editAll (shell : Interpreter) (n : Nat) : Edit Unit := do
  match n with
  | 0 => return
  | n + 1 =>
    if !(← readLine false) then return
    match ← goThrough shell maxCommands 0 with
    | .done true =>
      autoprint
      editAll shell n
    | .over => return
    | _ => editAll shell n

end Edit

end LocaleForge.Editing
