import LocaleForge.Editing.Cycle
import LocaleForge.Editing.Reader
import LocaleForge.Utility.Options

/-!
Editing files or standard input with a script.
-/

namespace LocaleForge.Editing

/-- What an option means. -/
inductive Setting where
  | silent
  | separate
  | extended
  | nulEnds
  | inPlace
  | expression
  | file
  | width
  | confined
  | help
  | ignored
deriving DecidableEq, Repr

def options : Utility.OptionTable Setting where
  letters := [('n', .plain, .silent), ('s', .plain, .separate), ('r', .plain, .extended), ('E', .plain, .extended),
    ('z', .plain, .nulEnds), ('i', .optional, .inPlace), ('e', .required, .expression), ('f', .required, .file),
    ('l', .required, .width), ('b', .plain, .ignored), ('u', .plain, .ignored), ('h', .plain, .help)]
  words := [("binary", .plain, .ignored), ("regexp-extended", .plain, .extended), ("debug", .plain, .ignored),
    ("in-place", .optional, .inPlace), ("expression", .required, .expression), ("file", .required, .file),
    ("line-length", .required, .width), ("null-data", .plain, .nulEnds), ("zero-terminated", .plain, .nulEnds),
    ("quiet", .plain, .silent), ("posix", .plain, .ignored), ("silent", .plain, .silent),
    ("sandbox", .plain, .confined), ("separate", .plain, .separate), ("unbuffered", .plain, .ignored),
    ("help", .plain, .help), ("follow-symlinks", .plain, .ignored)]

/-- The rules for a call of the program. -/
def usage (name : Bytes) : Bytes :=
  "Usage: " ++ name ++ text
where
  text : Bytes := " [OPTION]... \x7bscript-only-if-no-other-script\x7d [input-file]...

  -n, --quiet, --silent
                 suppress automatic printing of pattern space
      --debug
                 annotate program execution
  -e script, --expression=script
                 add the script to the commands to be executed
  -f script-file, --file=script-file
                 add the contents of script-file to the commands to be executed
  --follow-symlinks
                 follow symlinks when processing in place
  -i[SUFFIX], --in-place[=SUFFIX]
                 edit files in place (makes backup if SUFFIX supplied)
  -l N, --line-length=N
                 specify the desired line-wrap length for the `l' command
  --posix
                 disable all GNU extensions.
  -E, -r, --regexp-extended
                 use extended regular expressions in the script
                 (for portability use POSIX -E).
  -s, --separate
                 consider files as separate rather than as a single,
                 continuous long stream.
      --sandbox
                 operate in sandbox mode (disable e/r/w commands).
  -u, --unbuffered
                 load minimal amounts of data from the input files and flush
                 the output buffers more often
  -z, --null-data
                 separate lines by NUL characters
      --help     display this help and exit
      --version  output version information and exit

If no -e, --expression, -f, or --file option is given, then the first
non-option argument is taken as the sed script to interpret.  All
remaining arguments are names of input files; if no input files are
specified, then the standard input is read.

"

/-- What is known when the options have been read so far. -/
structure Setup where
  manner : Manner := {}
  draft : Draft := { rules := {} }
  /-- The number of parts of the script that were arguments. -/
  expressions : Nat := 0
  hasScript : Bool := false
  handles : List (Bytes × Nat) := []

/-- Ends the program; the number is its status. -/
abbrev Ended := ExceptT Nat Action

namespace Setup

/-- Ends the program with a complaint. -/
def refuse {α : Type} (name : Bytes) (status : Nat) (message : Bytes) : Ended α := do
  let _ ← (Utility.complain name message : Action Unit)
  throw status

/-- The status for a faulty script. -/
def badScript := 1

/-- The status for a file that cannot be used. -/
def badFile := 4

/-- Complains about a fault of the script. -/
def reject {α : Type} (name : Bytes) (d : Draft) (f : Fault) : Ended α :=
  if f.isSevere then refuse name badFile f.message
  else refuse name badScript (d.source.place ++ f.message)

/-- Opens the files that lines are written to. -/
def openFiles (name : Bytes) (s : Setup) : List Bytes → Ended Setup
  | [] => return s
  | file :: files => do
    if (s.handles.lookup file).isSome then openFiles name s files
    else
      let (r, p) := (← get).openFile .write (Bytes.toPath file)
      set p
      match r with
      | .ok handle => openFiles name { s with handles := (file, handle) :: s.handles } files
      | .error e => refuse name badFile ("couldn't open file " ++ file ++ ": " ++ Bytes.ofFault e)

/-- Reads a part of the script. -/
def addPart (name : Bytes) (s : Setup) (source : Source) : Ended Setup := do
  let (fault?, draft) := match (Reader.part source).run s.draft with
    | .ok () d => (none, d)
    | .error f d => (some f, d)
  let s ← openFiles name { s with draft, hasScript := true } draft.files.reverse
  match fault? with
  | some f => reject name draft f
  | none => return s

def addExpression (name : Bytes) (s : Setup) (text : Bytes) : Ended Setup :=
  let n := s.expressions + 1
  addPart name { s with expressions := n } { origin := .expression n, rest := text }

/-- Carries out an option. -/
def apply (name : Bytes) (s : Setup) (g : Utility.Given Setting) : Ended Setup := do
  let value := g.2.getD []
  let manner (m : Manner) : Ended Setup := return { s with manner := m }
  let rules (r : Rules) : Ended Setup := return { s with draft := { s.draft with rules := r } }
  match g.1 with
  | .silent => manner { s.manner with silent := true }
  | .separate => manner { s.manner with separate := true }
  | .nulEnds => manner { s.manner with lineEnd := '\x00' }
  | .inPlace => manner { s.manner with separate := true, backup? := some value }
  | .width =>
    let digits := (value.dropWhile Bytes.isSpace).takeWhile Char.isDigit
    manner { s.manner with width := Decimal.ofDigits 10 digits }
  | .extended => rules { s.draft.rules with extended := true }
  | .confined => rules { s.draft.rules with confined := true }
  | .expression => addExpression name s value
  | .file =>
    match ← (Utility.readOperand value : Action _) with
    | .ok text => addPart name s { origin := .file value, rest := text }
    | .error e => refuse name badFile ("couldn't open file " ++ value ++ ": " ++ Bytes.ofFault e)
  | .help =>
    let _ ← (Process.write Process.standardOutput (usage name) : Action _)
    throw 0
  | .ignored => return s

end Setup

/-- The most lines that are edited. -/
def maxLines := 100000000

/-- Writes what is left to write and tells the status. -/
def conclude (name : Bytes) (e : Editor) (status : Nat) : Action Nat := do
  let bs := e.printed.reverse.flatten
  let fail (what : String) (fault : Disk.Fault) : Action Nat := do
    Utility.complain name ("couldn't " ++ what ++ ": " ++ Bytes.ofFault fault)
    return Setup.badFile
  if ((← get).file? Process.standardOutput).isNone then fail "close stdout" .badDescriptor
  else
    match ← if bs.isEmpty then pure (.ok ()) else Process.write Process.standardOutput bs with
    | .error fault => fail "flush stdout" fault
    | .ok () => if e.full then fail "flush <unknown>" .noSpace else return status

/-- Edits the files with the script that has been read. -/
def editFiles (shell : Interpreter) (name : Bytes) (s : Setup) (files : List Bytes) : Ended Nat := do
  let script ← match Reader.finish.run s.draft with
    | .ok script _ => pure script
    | .error f d => Setup.reject name d f
  if files.isEmpty && s.manner.backup?.isSome then Setup.refuse name Setup.badFile "no input files"
  let names := script.instructions.toList.filterMap fun i => match i.act with
    | .appendLine name => some name
    | _ => none
  let sources ← names.mapM fun file => do
    match ← (Process.readPath file : Action _) with
    | .ok bs => pure (file, bs)
    | .error _ => pure (file, [])
  let start : Editor :=
    { process := ← get
      name
      manner := { s.manner with silent := s.manner.silent || script.silent }
      script
      waiting := if files.isEmpty then [['-']] else files
      ranges := Editor.freshRanges script
      handles := s.handles
      sources }
  let (r, e) := (do Edit.editAll shell maxLines : Edit Unit).run.run start
  let finish (status : Nat) : Ended Nat := do
    let (_, e) := Edit.closeFile.run.run e
    set e.process
    let status := if e.missed then 2 else status
    (conclude name e status : Action Nat)
  let stop (status : Nat) (message : Bytes) : Ended Nat := do
    set e.process
    Utility.complain name message
    let _ ← (conclude name e 0 : Action Nat)
    return status
  match r with
  | .ok () => finish 0
  | .error (.quit status) => finish status
  | .error (.failure message) => stop Setup.badFile message
  | .error (.fault f) =>
    let source := { s.draft.source with consumed := 0 }
    stop Setup.badScript (source.place ++ f.message)

/-- Edits files; commands in scripts are run by `shell`. -/
def program (shell : Interpreter) : Utility := fun name args => do
  let a := options.read args
  let all : Ended Nat := do
    let s ← a.options.foldlM (Setup.apply name) {}
    match a.fault with
    | some message =>
      Utility.complain name message
      let _ ← (Process.write Process.standardError (usage name) : Action _)
      return Setup.badScript
    | none =>
      if s.hasScript then editFiles shell name s a.operands
      else
        match a.operands with
        | [] =>
          let _ ← (Process.write Process.standardError (usage name) : Action _)
          return Setup.badScript
        | script :: files => editFiles shell name (← Setup.addExpression name s script) files
  match ← all.run with
  | .ok status | .error status => return status

end LocaleForge.Editing
