import LocaleForge.Utility.Options

/-!
Counting the lines, words and bytes of files, with a sum over several of them.
-/

namespace LocaleForge.Utility.Count

/-- The counts of a text. -/
structure Tally where
  lines : Nat := 0
  words : Nat := 0
  bytes : Nat := 0
  /-- The number of columns of the longest line. -/
  longest : Nat := 0

/-- The counts so far. -/
structure Counting where
  tally : Tally := {}
  inWord : Bool := false
  column : Nat := 0

namespace Counting

/-- A word ends here. -/
def endWord (s : Counting) : Counting :=
  { s with inWord := false, tally.words := s.tally.words + if s.inWord then 1 else 0 }

/-- A line ends here. -/
def endLine (s : Counting) : Counting :=
  { s.endWord with column := 0, tally.longest := max s.tally.longest s.column }

/-- Bytes that are not printed neither begin nor end a word. -/
def step (s : Counting) (c : Char) : Counting :=
  let s := { s with tally.bytes := s.tally.bytes + 1 }
  if c = '\n' then { s.endLine with tally.lines := s.tally.lines + 1 }
  else if c = '\x0d' || c = '\x0c' then s.endLine
  else if c = '\t' then { s.endWord with column := s.column / 8 * 8 + 8 }
  else if c = ' ' then { s.endWord with column := s.column + 1 }
  else if c = '\x0b' then s.endWord
  else if Quotation.isPrinted c then { s with inWord := true, column := s.column + 1 }
  else s

end Counting

/-- The counts of a text. -/
def Tally.of (bs : Bytes) : Tally :=
  let s := (bs.foldl Counting.step {}).endLine
  -- The end of the text ends the last word and the last line.
  s.tally

namespace Tally

/-- The counts of two texts together. -/
def add (a b : Tally) : Tally :=
  ⟨a.lines + b.lines, a.words + b.words, a.bytes + b.bytes, max a.longest b.longest⟩

/-- The counts that are asked for, in their fixed order. -/
def chosen (letters : List Char) (t : Tally) : List Nat :=
  let all := [('l', t.lines), ('w', t.words), ('m', t.bytes), ('c', t.bytes), ('L', t.longest)]
  (all.filter fun (c, _) => letters.contains c).map (·.2)

end Tally

def options : OptionTable Char where
  letters := "clLmw".toList.map fun c => (c, .plain, c)
  words := [("bytes", .plain, 'c'), ("chars", .plain, 'm'), ("lines", .plain, 'l'), ("words", .plain, 'w'),
    ("total", .required, 't'), ("max-line-length", .plain, 'L')]

/-- When the sum is printed. -/
inductive Summing where
  | auto
  | always
  | only
  | never
deriving DecidableEq, Repr

def Summing.all : List (String × Summing) :=
  [("auto", auto), ("always", always), ("only", only), ("never", never)]

/-- The word for when the sum is printed; it may be cut short where that leaves one meaning. -/
def Summing.ofWord? (word : Bytes) : Option Summing :=
  match all.find? fun s => s.1.toList = word with
  | some s => some s.2
  | none =>
    match all.filter fun s => word.isPrefixOf s.1.toList with
    | [s] => some s.2
    | _ => none

/-- The complaint about a word that names no such time. -/
def badSumming (word : Bytes) : Bytes :=
  let ambiguous := (Summing.all.filter fun s => word.isPrefixOf s.1.toList).length > 1
  let kind : Bytes := if ambiguous then "ambiguous" else "invalid"
  let list : Bytes := Summing.all.flatMap fun s => "\n  - '" ++ s.1.toList ++ "'"
  kind ++ " argument " ++ Quotation.quoted word ++ " for '--total'\nValid arguments are:" ++ list

/-- How counts are printed. -/
structure Style where
  letters : List Char
  width : Nat
  summing : Summing

/-- A line of counts with a name behind them. -/
def Style.line (s : Style) (t : Tally) (name : Option Bytes) : Bytes :=
  Bytes.spaced ((t.chosen s.letters).map fun n => Bytes.padLeft s.width (Bytes.ofNat n)) ++
    name.elim [] (' ' :: ·) ++ ['\n']

/-- The size of a regular file; nothing for what is not there, and zero digits are not enough for
what is no such file. -/
inductive Size where
  | unknown
  | bytes (n : Nat)
  | stream

/-- The size of an open file. -/
def sizeOf (p : Process) (s : Stream) : Size :=
  match s with
  | .file loc =>
    match p.world.disk.get? loc with
    | some (.file content _) => .bytes content.size
    | _ => .unknown
  | _ => .stream

/-- The size of an operand. -/
def sizeOfOperand (p : Process) (file : Bytes) : Size :=
  if file = ['-'] then (p.file? Process.standardInput).elim .unknown fun f => sizeOf p f.stream
  else
    match p.openFile .read (Bytes.toPath file) with
    | (.ok handle, p) => (p.world.openFiles[handle]?).elim .unknown fun f => sizeOf p f.stream
    | (.error _, _) => .unknown

/-- The width of a column: that of the sum of all sizes, and seven where a size is not known before. -/
def widthOf (sizes : List Size) : Nat :=
  let total := (sizes.map fun
    | .bytes n => n
    | _ => 0).foldl (· + ·) 0
  let least := if sizes.any (fun
    | .stream => true
    | _ => false) then 7 else 1
  max least (Bytes.ofNat total).length

/-- Counts one operand; the status is 1 if it cannot be read. -/
def countFile (name : Bytes) (style : Style) (file : Bytes) (label : Option Bytes) :
    Action (Option (Tally × Bytes) × Nat) := do
  let line (t : Tally) : Option (Tally × Bytes) :=
    some (t, if style.summing = .only then [] else style.line t label)
  match ← readOperand file with
  | .ok bs => return (line (Tally.of bs), 0)
  | .error e =>
    report name (if label.isSome && file ≠ ['-'] then Quotation.fileName file else "'standard input'") e
    -- A file that was opened but not read has its line.
    return (if e = .isDirectory || file = ['-'] then line {} else none, 1)

/-- Counts operands one by one. -/
def countAll (name : Bytes) (style : Style) (total : Tally) (status count : Nat) (failed : Bool) :
    List (Bytes × Option Bytes) → Action (Nat × Bool)
  | [] => do
    let summed := match style.summing with
      | .auto => 1 < count
      | .always | .only => true
      | .never => false
    if !summed then return (status, failed)
    let r ← Process.write Process.standardOutput
      (style.line total (if style.summing = .only then none else some "total"))
    return (status, failed || r.toOption.isNone)
  | (file, label) :: rest => do
    let (counted, s) ← countFile name style file label
    let status := max status s
    match counted with
    | none => countAll name style total status count failed rest
    | some (t, line) =>
      let r ← if line.isEmpty then pure (.ok ()) else Process.write Process.standardOutput line
      countAll name style (total.add t) status count (failed || r.toOption.isNone) rest

def run : Utility := fun name args => do
  let a := options.read args
  let words := a.options.filter (·.1 = 't')
  match words.find? fun w => (Summing.ofWord? (w.2.getD [])).isNone with
  | some w => misuse name (badSumming (w.2.getD []))
  | none =>
    match a.fault with
    | some message => misuse name message
    | none =>
      let given := (a.options.map (·.1)).filter (· ≠ 't')
      let letters := if given.isEmpty then ['l', 'w', 'c'] else given
      let summing := (words.getLast?.bind fun w => Summing.ofWord? (w.2.getD [])).getD .auto
      let operands := if a.operands.isEmpty then [(['-'], none)] else a.operands.map fun o => (o, some o)
      let single := operands.length = 1 && (Tally.chosen letters {}).length = 1
      let p ← get
      let width :=
        if single || summing = .only then 1 else widthOf (operands.map fun o => sizeOfOperand p o.1)
      let label (o : Bytes × Option Bytes) : Bytes × Option Bytes :=
        (o.1, o.2.map fun l => if l.contains '\n' then Quotation.fileName l else l)
      let (status, failed) ←
        countAll name ⟨letters, width, summing⟩ {} 0 operands.length false (operands.map label)
      if failed then
        complain name "write error"
        return 1
      if operands.any (·.1 = ['-']) && (p.file? Process.standardInput).isNone then
        report name "-" .badDescriptor
        return 1
      return status

end LocaleForge.Utility.Count
