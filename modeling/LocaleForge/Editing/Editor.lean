import LocaleForge.Editing.Fault
import LocaleForge.Editing.Script
import LocaleForge.Utility.Basic

/-!
What is at hand while lines are edited: the line that is worked on and the one that is held, the files
that lines come from, and the places that they go to.
-/

namespace LocaleForge.Editing

/-- A line. -/
structure Line where
  text : Bytes := []
  /-- Its end is part of the file. -/
  ended : Bool := true

/-- How lines are edited, other than what the script says. -/
structure Manner where
  silent : Bool := false
  /-- Each file is edited on its own. -/
  separate : Bool := false
  /-- Files are replaced by what is printed; the text tells the names under which they are kept. -/
  backup? : Option Bytes := none
  /-- What ends a line. -/
  lineEnd : Char := '\n'
  /-- The width of lists. -/
  width : Nat := 70

/-- The state of a range of lines. -/
inductive RangeState where
  | waiting
  | open (last : Option Nat)
  /-- It has come to its end. -/
  | closed
deriving DecidableEq, Repr

/-- What is printed when the work on a line is done. -/
inductive Appendix where
  | text (bs : Bytes)
  | file (name : Bytes)

/-- Where printed text goes. -/
inductive Outlet where
  | main
  | beside (target : Target)
deriving DecidableEq, Repr

/-- A file that lines are read from. -/
structure InputFile where
  rest : Bytes
  /-- The number of bytes that were read, of standard input. -/
  standard : Option Nat := none

structure Editor where
  process : Process
  name : Bytes
  manner : Manner
  script : Script
  /-- The files that have not been opened yet. -/
  waiting : List Bytes
  current : Option InputFile := none
  fileName : Bytes := ['-']
  lineNumber : Nat := 0
  /-- With the next file the lines are numbered anew, and nothing is held. -/
  restarts : Bool := false
  /-- There was a file that could not be read. -/
  missed : Bool := false
  line : Line := {}
  held : Line := {}
  /-- What goes to standard output, the latest first. -/
  printed : List Bytes := []
  /-- What goes to the file that is replaced. -/
  replaced : List Bytes := []
  /-- The outlets to which a line went without its end. -/
  unended : List Outlet := []
  appendices : List Appendix := []
  ranges : Array RangeState := #[]
  /-- A substitution was made in the line. -/
  substituted : Bool := false
  lastPattern : Option Regex.Pattern := none
  /-- The open files that lines are written to. -/
  handles : List (Bytes × Nat) := []
  /-- What is left of files from which single lines are read. -/
  sources : List (Bytes × Bytes) := []
  /-- A write to a file has failed. -/
  full : Bool := false

/-- Why editing stops before its end. -/
inductive Stop where
  | quit (status : Nat)
  /-- A fault of the script that shows when it runs. -/
  | fault (f : Fault)
  /-- A file cannot be used. -/
  | failure (message : Bytes)

/-- A step of editing. -/
abbrev Edit := ExceptT Stop (StateM Editor)

namespace Editor

/-- The states in which ranges are before the first line. -/
def freshRanges (s : Script) : Array RangeState :=
  s.instructions.map fun i =>
    match i.selection with
    | .range (.line 0) _ => .open none
    | _ => .waiting

end Editor

namespace Edit

/-- Does something as a process. -/
def act {α : Type} (a : Action α) : Edit α := do
  let e ← get
  let (r, process) := a.run e.process
  set { e with process }
  return r

/-- Sends text to an outlet. -/
def send (o : Outlet) (bs : Bytes) : Edit Unit := do
  let e ← get
  match o with
  | .main =>
    if e.manner.backup?.isSome then set { e with replaced := bs :: e.replaced }
    else set { e with printed := bs :: e.printed }
  | .beside .output => set { e with printed := bs :: e.printed }
  | .beside .errors =>
    let _ ← act (Process.write Process.standardError bs)
  | .beside (.file name) =>
    match e.handles.lookup name with
    | none => return
    | some handle =>
      let (r, world) := e.process.world.write handle bs
      let full := e.full || (match r with
        | .ok () => false
        | .error _ => true)
      set { e with process := { e.process with world }, full }

/-- Ends the line that went to an outlet without its end. -/
def endLine (o : Outlet) : Edit Unit := do
  let e ← get
  if e.unended.contains o then
    set { e with unended := e.unended.filter (· ≠ o) }
    send o [e.manner.lineEnd]

/-- Prints a text that ends with the end of a line. -/
def print (o : Outlet) (bs : Bytes) : Edit Unit := do
  endLine o
  send o bs

/-- Prints a line. -/
def printLine (o : Outlet) (l : Line) : Edit Unit := do
  endLine o
  if l.ended then send o (l.text ++ [(← get).manner.lineEnd])
  else
    send o l.text
    modify fun e => { e with unended := o :: e.unended }

/-- Prints a text behind which a line ends. -/
def printText (bs : Bytes) : Edit Unit := do
  let lineEnd := (← get).manner.lineEnd
  print .main (if bs.isEmpty then [] else bs.dropLast ++ [lineEnd])

/-- Prints what was left for the end of the work on a line. -/
def printAppendices : Edit Unit := do
  let as := (← get).appendices
  modify ({ · with appendices := [] })
  for a in as.reverse do
    endLine .main
    match a with
    | .text bs => send .main bs
    | .file name =>
      match ← act (Process.readPath name) with
      | .ok bs => send .main bs
      | .error .isDirectory => throw (.failure (readError name .isDirectory))
      | .error _ => pure ()
where
  readError (name : Bytes) (fault : Disk.Fault) : Bytes :=
    "read error on " ++ name ++ ": " ++ Bytes.ofFault fault

/-- Passes over what was read of standard input. As much of a pipe is read at once as fits into a buffer
of 4096 bytes. -/
def leaveInput : Edit Unit := do
  let e ← get
  match e.current with
  | some ⟨rest, some n⟩ =>
    let used := n - rest.length
    let isFile := match e.process.file? Process.standardInput with
      | some f => match f.stream with
        | .file _ => true
        | _ => false
      | none => false
    let used := if isFile then used else min n ((used + 4095) / 4096 * 4096)
    set { e with process := e.process.skip Process.standardInput used, current := none }
  | _ => set { e with current := none }

/-- The name under which a file is kept: in the pattern an asterisk stands for the name of the file. -/
def backupName (pattern name : Bytes) : Bytes :=
  let base := (name.reverse.takeWhile (· ≠ '/')).reverse
  let new := (if pattern.contains '*' then pattern else '*' :: pattern).flatMap fun c =>
    if c = '*' then base else [c]
  if new.contains '/' then new else name.take (name.length - base.length) ++ new

/-- Replaces the file that has been edited. -/
def replaceFile : Edit Unit := do
  let e ← get
  match e.manner.backup? with
  | none => return
  | some pattern =>
    let content : Bytes := e.replaced.reverse.flatten
    set { e with replaced := [], unended := e.unended.filter (· ≠ Outlet.main) }
    let disk := e.process.world.disk
    let fail (fault : Disk.Fault) : Edit Unit :=
      throw (.failure ("cannot rename " ++ e.fileName ++ ": " ++ Bytes.ofFault fault))
    match disk.find false (Bytes.toPath e.fileName) with
    | .error fault => fail fault
    | .ok spot =>
      let isExecutable := match disk.entryAt? (Bytes.toPath e.fileName) with
        | some (.file _ x) => x
        | _ => false
      let write (disk : Disk) : Edit Unit := modify fun e =>
        let disk := disk.set spot.location (.file (Bytes.toArray content) isExecutable)
        { e with process := { e.process with world := { e.process.world with disk } } }
      if pattern.isEmpty then write disk
      else
        match disk.find false (Bytes.toPath (backupName pattern e.fileName)) with
        | .error fault => fail fault
        | .ok kept =>
          if kept.entry = some .directory then fail .isDirectory
          else write (disk.set kept.location (spot.entry.getD .directory))

/-- Goes behind the end of a file. -/
def closeFile : Edit Unit := do
  if (← get).current.isSome then
    leaveInput
    replaceFile
    modify fun e => { e with restarts := e.manner.separate }

/-- Prints the files that come before the first line. -/
def printFront : Edit Unit := do
  let e ← get
  if e.lineNumber = 0 then
    let files := e.script.instructions.toList.filterMap fun i =>
      match i.selection, i.act with
      | .single (.line 0), .appendFile name => some (Appendix.file name)
      | _, _ => none
    modify fun e => { e with appendices := files.reverse ++ e.appendices }
    printAppendices

/-- Begins to read a file. -/
def enterFile (f : InputFile) : Edit Unit := do
  let e ← get
  if e.restarts then
    set { e with
      lineNumber := 0
      held := { e.held with text := [] }
      ranges := Editor.freshRanges e.script
      restarts := false }
    endLine .main
  modify ({ · with current := some f, replaced := [] })
  printFront

/-- Opens the next file. -/
def openFile (file : Bytes) (others : List Bytes) : Edit Unit := do
  modify ({ · with waiting := others, fileName := file })
  let e ← get
  let inPlace := e.manner.backup?.isSome
  if file = ['-'] && !inPlace then
    match e.process.upcoming Process.standardInput with
    | .ok bs => enterFile ⟨bs, some bs.length⟩
    | .error fault => throw (.failure ("read error on stdin: " ++ Bytes.ofFault fault))
  else
    match ← act (Process.readPath file) with
    | .ok bs => enterFile { rest := bs }
    | .error .isDirectory =>
      if inPlace then throw (.failure ("couldn't edit " ++ file ++ ": not a regular file"))
      else throw (.failure ("read error on " ++ file ++ ": " ++ Bytes.ofFault .isDirectory))
    | .error fault =>
      let _ ← act (Utility.complain e.name ("can't read " ++ file ++ ": " ++ Bytes.ofFault fault))
      modify ({ · with missed := true })

/-- Opens files until there is one with something left to read. -/
def openUntilText : List Bytes → Edit Bool
  | [] => return false
  | file :: others => do
    openFile file others
    match (← get).current with
    | some f =>
      if f.rest.isEmpty then
        closeFile
        openUntilText others
      else return true
    | none => openUntilText others

/-- No line comes behind this one. -/
def isLast : Edit Bool := do
  let e ← get
  match e.current with
  | some ⟨_ :: _, _⟩ => return false
  | _ =>
    if e.manner.separate then return true
    closeFile
    return !(← openUntilText (← get).waiting)

/-- Reads the next line; with `more` set behind the one that is worked on. Tells whether there was one. -/
def readLine (more : Bool) : Edit Bool := do
  printAppendices
  modify ({ · with substituted := false })
  match (← get).current with
  | some ⟨[], _⟩ => closeFile
  | _ => pure ()
  let found ← if (← get).current.isSome then pure true else openUntilText (← get).waiting
  if !found then return false
  modify fun e =>
    match e.current with
    | none => e
    | some f =>
      let text := f.rest.takeWhile (· ≠ e.manner.lineEnd)
      let ended := text.length < f.rest.length
      let line := { text := if more then e.line.text ++ e.manner.lineEnd :: text else text, ended }
      { e with
        line
        lineNumber := e.lineNumber + 1
        current := some { f with rest := f.rest.drop (text.length + 1) } }
  return true

end Edit

end LocaleForge.Editing
