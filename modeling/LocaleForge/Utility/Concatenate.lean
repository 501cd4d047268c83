import LocaleForge.Utility.Options

/-!
Copying files to standard output, with marks for what is invisible and numbers for the lines.
-/

namespace LocaleForge.Utility.Concatenate

/-- What is marked in the output. -/
structure Marks where
  numbers : Bool := false
  /-- Only lines with text are numbered. -/
  numbersText : Bool := false
  /-- Of several empty lines in a row only the first is kept. -/
  squeezes : Bool := false
  ends : Bool := false
  tabs : Bool := false
  controls : Bool := false
deriving DecidableEq, Repr

/-- An option; its letter stands for it. -/
def Marks.switch (m : Marks) (letter : Char) : Marks :=
  match letter with
  | 'A' => { m with controls := true, ends := true, tabs := true }
  | 'b' => { m with numbers := true, numbersText := true }
  | 'e' => { m with controls := true, ends := true }
  | 'E' => { m with ends := true }
  | 'n' => { m with numbers := true }
  | 's' => { m with squeezes := true }
  | 't' => { m with controls := true, tabs := true }
  | 'T' => { m with tabs := true }
  | 'v' => { m with controls := true }
  | _ => m

def options : OptionTable Char where
  letters := "AbeEnstTuv".toList.map fun c => (c, .plain, c)
  words := [("number-nonblank", 'b'), ("number", 'n'), ("squeeze-blank", 's'), ("show-nonprinting", 'v'),
    ("show-ends", 'E'), ("show-tabs", 'T'), ("show-all", 'A')].map fun (w, c) => (w, .plain, c)

/-- The place in the output. -/
structure Place where
  /-- A line has begun. -/
  inLine : Bool := false
  /-- The number of empty lines in a row before it, up to two. -/
  empty : Nat := 0
  line : Nat := 0
  /-- A carriage return is held back until it is known whether a line ends behind it. -/
  returns : Bool := false

/-- The number of a line with a tab behind it. -/
def Place.number (p : Place) : Bytes :=
  Bytes.padLeft 6 (Bytes.ofNat (p.line + 1)) ++ ['\t']

/-- A byte with a caret or `M-` in front if it is not printed as it is. -/
def control (c : Char) : Bytes :=
  let low (n : Nat) : Bytes := if n < 32 then ['^', Char.ofNat (n + 64)] else if n = 127 then ['^', '?'] else [Char.ofNat n]
  if c.toNat < 128 then low c.toNat else 'M' :: '-' :: low (c.toNat - 128)

/-- The end of a line. -/
def endLine (m : Marks) (p : Place) : Bytes × Place :=
  let empty := if p.inLine then 0 else min 2 (p.empty + 1)
  let p := { p with inLine := false, empty }
  if empty = 2 && m.squeezes then ([], p)
  else
    let numbered := 0 < empty && m.numbers && !m.numbersText
    let mark : Bytes := if m.ends then (if p.returns then "^M$" else "$") else []
    ((if numbered then p.number else []) ++ mark ++ ['\n'],
      { p with returns := false, line := if numbered then p.line + 1 else p.line })

/-- A byte inside of a line. -/
def addByte (m : Marks) (p : Place) (c : Char) : Bytes × Place :=
  let held : Bytes := if p.returns then ['\x0d'] else []
  let numbered := !p.inLine && m.numbers
  let holds := c = '\x0d' && m.ends && !m.controls
  let text :=
    if holds then []
    else if c = '\t' then (if m.tabs then "^I" else "\t")
    else if m.controls then control c
    else [c]
  (held ++ (if numbered then p.number else []) ++ text,
    { p with inLine := true, returns := holds, line := if numbered then p.line + 1 else p.line })

/-- Marks up a part of the input. -/
def mark (m : Marks) (p : Place) : Bytes → Bytes × Place
  | [] => ([], p)
  | c :: cs =>
    let (out, p) := if c = '\n' then endLine m p else addByte m p c
    let (rest, p) := mark m p cs
    (out ++ rest, p)

/-- A file that is not at its end and is also the one that standard output leads to. -/
def isOutput (file : Bytes) (p : Process) : Bool :=
  match p.file? Process.standardOutput with
  | none => false
  | some out =>
    let size (loc : Location) : Nat := match p.world.disk.get? loc with
      | some (.file content _) => content.size
      | _ => 0
    let same (stream : Stream) (offset : Nat) : Bool := match stream with
      | .file loc => out.stream = stream && offset < size loc
      | _ => false
    if file = ['-'] then (p.file? Process.standardInput).any fun f => same f.stream f.offset
    else
      match p.world.disk.find true (Bytes.toPath file) with
      | .ok spot => same (.file spot.location) 0
      | .error _ => false

/-- Copies files one by one. -/
def copyAll (name : Bytes) (m : Marks) (succeeded : Bool) (p : Place) : List Bytes → Action Nat
  | [] => conclude name (statusOf succeeded) (if p.returns then ['\x0d'] else [])
  | file :: files => do
    let bad (message : Bytes) : Action Nat := do
      complain name (Quotation.fileName file ++ ": " ++ message)
      copyAll name m false p files
    if isOutput file (← get) then bad "input file is output file"
    else
      match ← readOperand file with
      | .error e => bad (Bytes.ofFault e)
      | .ok bs =>
        let (out, p) := if m = {} then (bs, p) else mark m p bs
        match ← if out.isEmpty then pure (.ok ()) else Process.write Process.standardOutput out with
        | .ok () => copyAll name m succeeded p files
        | .error e =>
          report name "write error" e
          return 1

def run : Utility := fun name args => do
  let a := options.read args
  match a.fault with
  | some message => misuse name message
  | none =>
    if ((← get).file? Process.standardOutput).isNone then
      report name "standard output" .badDescriptor
      return 1
    let files := if a.operands.isEmpty then [['-']] else a.operands
    let status ← copyAll name (a.options.foldl (·.switch ·.1) {}) true {} files
    if files.contains ['-'] && ((← get).file? Process.standardInput).isNone then
      report name "closing standard input" .badDescriptor
      return 1
    return status

end LocaleForge.Utility.Concatenate
