import LocaleForge.Shell.Condition
import LocaleForge.Shell.Directory
import LocaleForge.Shell.Options
import LocaleForge.Shell.Printing
import LocaleForge.Shell.Split

/-!
The commands of the shell itself, other than those that run further commands.
-/

namespace LocaleForge.Shell

namespace Builtin

/-- Puts a program among those whose places are known. -/
def rememberPlace (name place : Bytes) : Run Unit :=
  modify fun s => { s with known := (name, place) :: s.known.filter (·.1 ≠ name) }

/-- Marks variables, and sets them. -/
def mark (readOnly : Bool) (args : List Bytes) : Run Nat := do
  let (os, names) ← optionsIn [('p', false)] args
  if !os.isEmpty || names.isEmpty then
    let keyword : Bytes := if readOnly then "readonly" else "export"
    print (settings keyword (fun v => if readOnly then v.readOnly else v.exported) (← get))
  else
    for text in names do
      let (name, value) := assignment text
      match value, (← get).get? name with
      | none, some v =>
        modify (·.putVariable name
          { v with exported := v.exported || !readOnly, readOnly := v.readOnly || readOnly })
      | _, _ => setNamed name value (!readOnly) readOnly
  return 0

/-- Lets variables belong to the function that runs. -/
def makeLocals (args : List Bytes) : Run Nat := do
  if (← get).locals.isEmpty then fail "not in a function"
  for text in ← operands args do
    if text = ['-'] then remember (.options (← get).options)
    else
      let (name, value) := assignment text
      makeLocal name value false
  return 0

/-- Takes variables or functions away. -/
def unset (args : List Bytes) : Run Nat := do
  let (os, names) ← optionsIn [('v', false), ('f', false)] args
  for name in names do
    if (os.getLast?.map (·.1)) = some 'f' then
      modify fun s => { s with functions := s.functions.filter (·.1 ≠ name) }
    else setNamed name none false false
  return 0

/-- Drops arguments. -/
def shift (args : List Bytes) : Run Nat := do
  let n ← match args.head? with
    | some a => numberOf a
    | none => pure 1
  if (← get).arguments.length < n then fail "can't shift that many"
  modify fun s => { s with arguments := s.arguments.drop n, optionPlace := {} }
  return 0

/-- What is read of a line: its parts, the last one first, and the part that has not ended. -/
structure Line where
  parts : List Span := []
  part : Bytes := []

namespace Line

def cut (l : Line) : Line :=
  { parts := ⟨.divided, Glyph.ofBytes false l.part.reverse⟩ :: l.parts }

/-- The parts of a line and the number of bytes up to its end, with the mark whether there is one. Behind a
backslash a byte does not divide; lines that are joined by it are one. `count` is the number so far. -/
def read (raw : Bool) (l : Line) (count : Nat) : Bytes → Line × Nat × Bool
  | [] => (l.cut, count, false)
  | '\n' :: _ => (l.cut, count + 1, true)
  | '\\' :: c :: cs =>
    if raw then read raw { l with part := '\\' :: l.part } (count + 1) (c :: cs)
    else if c = '\n' then read raw l.cut (count + 2) cs
    else if c = '\x00' then read raw l (count + 2) cs
    else
      let cut := l.cut
      read raw { cut with parts := ⟨.whole, [.byte c true]⟩ :: cut.parts } (count + 2) cs
  | ['\\'] => (if raw then { l with part := '\\' :: l.part }.cut else l.cut, count + 1, false)
  | c :: cs => read raw (if c = '\x00' then l else { l with part := c :: l.part }) (count + 1) cs

end Line

/-- Reads a line into variables. -/
def read (args : List Bytes) : Run Nat := do
  let (os, names) ← optionsIn [('p', true), ('r', false)] args
  if names.isEmpty then fail "arg count"
  let s ← get
  let (line, status) ←
    match s.process.upcoming Process.standardInput with
    | .error _ => pure (({} : Line).cut, 1)
    | .ok bs =>
      let (line, count, ended) := Line.read (os.lookup 'r').isSome {} 0 bs
      modify fun s => { s with process := s.process.skip Process.standardInput count }
      pure (line, if ended then 0 else 1)
  let fields := Division.fieldsOf s.dividers (some names.length) line.parts.reverse
  fill names (fields.map Glyph.plain)
  return status
where
  fill : List Bytes → List Bytes → Run Unit
    | [], _ => return
    | name :: names, fields => do
      setNamed name (some (fields.headD [])) false false
      fill names fields.tail

/-- The next option among words. -/
def nextOption (letters variableName : Bytes) (words : List Bytes) : Run Nat := do
  let place := (← get).optionPlace
  let index := place.index
  let inside : Option Bytes :=
    if index ≤ 1 then none
    else
      match place.offset, words[index - 2]? with
      | some k, some w => if w.length ≤ k then none else some (w.drop k)
      | _, _ => none
  let finish (index : Nat) (offset : Option Nat) (c : Char) (status : Nat) : Run Nat := do
    setOptionIndex index
    setNamed variableName (some [c]) false false
    modify fun s => { s with optionPlace := { index, offset } }
    return status
  let silent := letters.head? = some ':'
  let continueWith (text : Bytes) (index : Nat) : Run Nat := do
    match text with
    | [] => finish index none '?' 1
    | c :: rest =>
      let word := (words[index - 2]?).getD []
      let offset := if rest.isEmpty then none else some (word.length - rest.length)
      match takesValue c (if silent then letters.tail else letters) with
      | none =>
        if silent then setNamed "OPTARG" (some [c]) false false
        else
          printError ("Illegal option -" ++ [c, '\n'])
          setNamed "OPTARG" none false false
        finish index offset '?' 0
      | some false =>
        setNamed "OPTARG" (some []) false false
        finish index offset c 0
      | some true =>
        match (if rest.isEmpty then words[index - 1]? else some rest) with
        | some value =>
          setNamed "OPTARG" (some value) false false
          finish (if rest.isEmpty then index + 1 else index) none c 0
        | none =>
          if silent then setNamed "OPTARG" (some [c]) false false
          else
            printError ("No arg for -" ++ c :: " option\n".toList)
            setNamed "OPTARG" none false false
          finish index none (if silent then ':' else '?') 0
  match inside with
  | some text => continueWith text index
  | none =>
    match words[index - 1]? with
    | some ['-', '-'] => finish (index + 1) none '?' 1
    | some ('-' :: c :: cs) => continueWith (c :: cs) (index + 1)
    | _ => finish index none '?' 1
where
  takesValue (c : Char) : Bytes → Option Bool
    | [] => none
    | d :: ds =>
      let valued := ds.head? = some ':'
      if d = c then some valued
      else
        match ds with
        | ':' :: more => takesValue c more
        | ds => takesValue c ds
  setOptionIndex (n : Nat) : Run Unit := do
    let place := (← get).optionPlace
    setVariable "OPTIND" (some (Bytes.ofNat n)) false false false
    modify fun s => { s with optionPlace := place }

def getopts (args : List Bytes) : Run Nat := do
  match ← operands args with
  | letters :: variableName :: given =>
    let s ← get
    let words := if given.isEmpty then s.arguments else given
    if words.length + 1 < s.optionPlace.index then
      modify fun s => { s with optionPlace := {} }
    nextOption letters variableName words
  | _ => fail "Usage: getopts optstring var [arg...]"

def aliasLine (name text : Bytes) : Bytes :=
  name ++ '=' :: quoted text ++ ['\n']

/-- Sets aliases, or tells them. -/
def aliases (args : List Bytes) : Run Nat := do
  if args.isEmpty then
    for (name, text) in inRows 39 (← get).aliases do
      print (aliasLine name text)
    return 0
  else setAll 0 args
where
  setAll (status : Nat) : List Bytes → Run Nat
    | [] => return status
    | arg :: args => do
      let name := arg.take 1 ++ (arg.drop 1).takeWhile (· ≠ '=')
      match arg.drop name.length with
      | _ :: text =>
        modify fun s =>
          { s with
            aliases :=
              if (s.aliases.lookup name).isSome then
                s.aliases.map fun a => if a.1 = name then (name, text) else a
              else (name, text) :: s.aliases }
        setAll status args
      | [] =>
        match (← get).aliases.lookup arg with
        | some text =>
          print (aliasLine arg text)
          setAll status args
        | none =>
          printError ("alias: " ++ arg ++ " not found\n")
          setAll 1 args

/-- Takes aliases away. -/
def unalias (args : List Bytes) : Run Nat := do
  let (os, names) ← optionsIn [('a', false)] args
  if !os.isEmpty then
    modify fun s => { s with aliases := [] }
    return 0
  eraseAll 0 names
where
  eraseAll (status : Nat) : List Bytes → Run Nat
    | [] => return status
    | name :: names => do
      if ((← get).aliases.lookup name).isSome then
        modify fun s => { s with aliases := s.aliases.filter (·.1 ≠ name) }
        eraseAll status names
      else
        printError ("unalias: " ++ name ++ " not found\n")
        eraseAll 1 names

/-- The permissions that a mask leaves to the owner, the group and others. -/
def symbolicMask (mask : Nat) : Bytes :=
  let allowed (c : Char) (place : Nat) : Bytes :=
    let bits := 7 - mask / Nat.pow 8 place % 8
    c :: '=' :: (if bits / 4 % 2 = 1 then ['r'] else []) ++ (if bits / 2 % 2 = 1 then ['w'] else []) ++
      (if bits % 2 = 1 then ['x'] else [])
  List.intercalate [','] [allowed 'u' 2, allowed 'g' 1, allowed 'o' 0] ++ ['\n']

/-- Sets the mask of new files, or tells it. -/
def umask (args : List Bytes) : Run Nat := do
  let (os, rest) ← optionsIn [('S', false)] args
  match rest with
  | [] =>
    let mask := (← get).mask
    if os.isEmpty then
      let digits := Nat.toDigits 8 mask
      print (Bytes.filling '0' 4 digits ++ digits ++ ['\n'])
    else print (symbolicMask mask)
  | mode :: _ =>
    if mode.head?.any Char.isDigit then
      if mode.all (Decimal.isDigitIn 8) then
        modify fun s => { s with mask := Decimal.ofDigits 8 mode % 512 }
      else illegalNumber mode
    else fail ("Illegal mode: " ++ mode)
  return 0

def times (_ : List Bytes) : Run Nat := do
  let line : Bytes := "0m0.000000s 0m0.000000s\n"
  print (line ++ line)
  return 0

def ulimit (args : List Bytes) : Run Nat := do
  if args.all (·.head? = some '-') then print "unlimited\n"
  return 0

/-- Leaves loops, or goes on with their next rounds. -/
def leaveLoops (kind : Skip) (args : List Bytes) : Run Nat := do
  let n ← match args.head? with
    | some a =>
      let n ← numberOf a
      if n = 0 then illegalNumber a
      pure n
    | none => pure 1
  let n := min n (← get).loopDepth
  if n > 0 then modify fun s => { s with skip := some kind, skipCount := n }
  return 0

/-- Leaves a function or file. -/
def leaveFunction (args : List Bytes) : Run Nat := do
  match args.head? with
  | some a =>
    let n ← numberOf a
    modify fun s => { s with skip := some .return }
    return n
  | none =>
    modify fun s => { s with skip := some .bareReturn }
    return (← get).status

/-- Ends the shell. -/
def exit (args : List Bytes) : Run Nat := do
  match args.head? with
  | some a =>
    let n ← numberOf a
    modify fun s => { s with finalStatus := some n }
  | none => pure ()
  throw .exited

/-- Runs what has been started beside the shell and has not run yet. -/
def runJobs : Run Unit := do
  for j in (← get).jobs.reverse do
    if !j.waiting.isEmpty then
      modify fun s =>
        let (ending, world) := j.waiting.foldl
          (fun (_, world) start =>
            let (e, world) := start world
            (some e, world))
          (j.ending, s.process.world)
        let world := { world with disk := world.disk.within s.process.directory }
        { s with
          process := { s.process with world }
          jobs := s.jobs.map fun k => if k.number = j.number then { k with waiting := [], ending } else k }
  noticeSignals

/-- What is said of a command that a signal has ended. -/
def tellEnding (e : Ending) : Run Unit := do
  match e with
  | .signalled s =>
    if s ≠ Signal.interrupt && s ≠ Signal.pipe then printError ((s.description : Bytes) ++ ['\n'])
  | .exited _ => pure ()

/-- Waits for commands that run beside the shell. -/
def wait (args : List Bytes) : Run Nat := do
  let names ← operands args
  runJobs
  if names.isEmpty then
    modify fun s => { s with jobs := s.jobs.map fun j => { j with told := true } }
    return 0
  else waitAll 127 names
where
  waitAll (status : Nat) : List Bytes → Run Nat
    | [] => return status
    | name :: names => do
      let n ← target (← get) name
      match (← get).jobs.find? (·.number = n) with
      | none => waitAll status names
      | some j =>
        let ending := j.ending.getD (.exited 0)
        if !j.told then tellEnding ending
        modify fun s =>
          { s with jobs := s.jobs.map fun k => if k.number = n then { k with told := true } else k }
        waitAll ending.status names

/-- Tells the commands that run beside the shell. -/
def listJobs (args : List Bytes) : Run Nat := do
  let (os, _) ← optionsIn [('l', false), ('p', false)] args
  let jobs := (← get).jobs
  for (j, k) in jobs.zipIdx do
    if (os.lookup 'p').isSome then print (Bytes.ofNat j.number ++ ['\n'])
    else
      let sign := if k = 0 then '+' else if k = 1 then '-' else ' '
      let word : Bytes := match j.ending with
        | none => "Running"
        | some (.exited 0) => "Done"
        | some (.exited n) => "Done(" ++ Bytes.ofNat n ++ [')']
        | some (.signalled s) => s.description
      let front := '[' :: Bytes.ofNat j.place ++ ']' :: ' ' :: sign :: ' ' :: word
      print (front ++ Bytes.filling ' ' 33 front ++ ['\n'])
  modify fun s => { s with jobs := s.jobs.filter (·.ending.isNone) }
  return 0

end Builtin

end LocaleForge.Shell
