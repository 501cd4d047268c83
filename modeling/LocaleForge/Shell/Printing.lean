import LocaleForge.Shell.Variables
import LocaleForge.Utility.Directive

/-!
The shell's own printing of arguments: as they are, with escapes, or by a format that is used again as long
as arguments are left.
-/

namespace LocaleForge.Shell.Printing

open Utility (Directive)

/-- The byte of an escape behind its backslash, and the text behind it. A backslash before anything else
stands for itself. -/
def escape (bs : Bytes) : Char × Bytes :=
  let digits := (bs.takeWhile (Decimal.isDigitIn 8)).take 3
  match digits, bs with
  | _ :: _, _ => (Bytes.byte (Decimal.ofDigits 8 digits), bs.drop digits.length)
  | [], c :: rest =>
    match letters.lookup c with
    | some b => (b, rest)
    | none => ('\\', bs)
  | [], [] => ('\\', [])
where
  letters : List (Char × Char) :=
    [('\\', '\\'), ('a', '\x07'), ('b', '\x08'), ('e', '\x1b'), ('f', '\x0c'), ('n', '\n'), ('r', '\x0d'),
      ('t', '\t'), ('v', '\x0b')]

/-- A text with its escapes replaced, up to one that ends all output. A zero may stand before octal digits.
`n` bounds the length. -/
def unescape (n : Nat) (bs : Bytes) : Bytes × Bool :=
  let more (c : Char) (r : Bytes × Bool) : Bytes × Bool := (c :: r.1, r.2)
  match n, bs with
  | 0, _ | _, [] => ([], false)
  | _, '\\' :: 'c' :: _ => ([], true)
  | n + 1, '\\' :: rest =>
    let rest := match rest with
      | '0' :: c :: cs => if Decimal.isDigitIn 8 c then c :: cs else rest
      | _ => rest
    let (c, rest) := escape rest
    more c (unescape n rest)
  | n + 1, c :: rest => more c (unescape n rest)

/-- Prints arguments with their escapes. -/
def echo (args : List Bytes) : Run Nat := do
  let (stop, words) : Bytes × List Bytes := match args with
    | ['-', 'n'] :: rest => ([], rest)
    | _ => (['\n'], args)
  lines stop words
  return 0
where
  lines (stop : Bytes) : List Bytes → Run Unit
    | [] => print stop
    | w :: ws => do
      let (text, ends) := unescape (w.length + 1) w
      print text
      if ends then return
      if ws.isEmpty then print stop
      else
        print [' ']
        lines stop ws

/-- What remains to be done by a format. -/
structure Progress where
  format : Bytes
  args : List Bytes
  failed : Bool := false

/-- Prints by a format. -/
abbrev Formatting := StateT Progress Run

/-- Takes the next argument. -/
def take? : Formatting (Option Bytes) :=
  modifyGet fun p => (p.args.head?, { p with args := p.args.tail })

/-- Complains about an argument. -/
def complain (arg message : Bytes) : Formatting Unit := do
  warn (arg ++ ": " ++ message)
  modify fun p => { p with failed := true }

/-- Complains about what is wrong with a number. -/
def judge (arg rest : Bytes) (outOfRange : Bool) : Formatting Unit := do
  if !rest.isEmpty then
    complain arg (if rest = arg then "expected numeric value" else "not completely converted")
  else if outOfRange then complain arg "Numerical result out of range"

/-- The code of a byte behind a quotation mark. -/
def character? (arg : Bytes) : Option Nat :=
  match arg with
  | '"' :: cs | '\'' :: cs => some (cs.head?.elim 0 Char.toNat)
  | _ => none

/-- The next argument as an integer of 64 bits. -/
def integer (signed : Bool) : Formatting Int := do
  match ← take? with
  | none => return 0
  | some arg =>
    match character? arg with
    | some n => return n
    | none =>
      match Decimal.integer? 0 arg with
      | none =>
        judge arg arg false
        return 0
      | some (n, rest) =>
        let top : Int := Word.count 64 - 1
        let (low, high) := if signed then (Word.smallest 64, Word.largest 64) else (-top, top)
        let outOfRange := n < low || high < n
        judge arg rest outOfRange
        return if outOfRange && !signed then top else max low (min high n)

/-- The next argument as a number with a fraction. -/
def number : Formatting Decimal.Number := do
  match ← take? with
  | none => return Decimal.double.ofInt 0
  | some arg =>
    match character? arg with
    | some n => return Decimal.double.ofInt n
    | none =>
      match Decimal.double.scan? arg with
      | none =>
        judge arg arg false
        return Decimal.double.ofInt 0
      | some ⟨n, outOfRange, rest⟩ =>
        judge arg rest outOfRange
        return n

/-- A size in a format: given there, or by an argument. -/
def size : Formatting (Option Int) := do
  match (← get).format with
  | '*' :: rest =>
    modify fun p => { p with format := rest }
    let n ← integer true
    return some (n.bmod (Word.count 32))
  | format =>
    let digits := format.takeWhile fun c => c.isDigit || c = '*'
    modify fun p => { p with format := format.drop digits.length }
    return if digits.isEmpty then none else some (Decimal.ofDigits 10 digits)

/-- Prints what a directive stands for, behind its percent sign. True if an escape ends all output. -/
def directive : Formatting Bool := do
  let start := (← get).format
  let flags := start.takeWhile ['#', '-', '+', ' ', '0'].contains
  modify fun p => { p with format := start.drop flags.length }
  let width ← size
  let precision ←
    match (← get).format with
    | '.' :: rest =>
      modify fun p => { p with format := rest }
      let n ← size
      pure (some (n.getD 0))
    | _ => pure none
  match (← get).format with
  | [] => fail "missing format character"
  | kind :: rest =>
    modify fun p => { p with format := rest }
    let d := (Directive.ofFlags kind flags).setWidth (width.getD 0)
    let d := precision.elim d d.setPrecision
    if kind = 'b' then
      let arg := (← take?).getD []
      let (text, ends) := unescape (arg.length + 1) arg
      print (d.text text)
      return ends
    if kind = 'c' then print ({ d with precision := none }.text [((← take?).getD []).headD '\x00'])
    else if kind = 's' then print (d.text ((← take?).getD []))
    else if kind = 'd' || kind = 'i' then print (d.integer (← integer true))
    else if ['o', 'u', 'x', 'X'].contains kind then print (d.integer (← integer false))
    else if (Directive.form? kind).isSome then print (d.number Decimal.double (← number))
    else fail ('%' :: start.take (start.length - rest.length) ++ ": invalid directive")
    return false

/-- Uses the format once. True if an escape ends all output. `n` bounds its length. -/
def pass (n : Nat) : Formatting Bool := do
  let p ← get
  match n, p.format with
  | 0, _ | _, [] => return false
  | n + 1, '\\' :: rest =>
    let (c, format) := escape rest
    print [c]
    set { p with format }
    pass n
  | n + 1, '%' :: '%' :: format =>
    print ['%']
    set { p with format }
    pass n
  | n + 1, '%' :: format =>
    set { p with format }
    if ← directive then return true
    pass n
  | n + 1, c :: format =>
    print [c]
    set { p with format }
    pass n

/-- Uses the format until no argument is left. `n` bounds the number of times. -/
def passes (n : Nat) (format : Bytes) : Formatting Unit := do
  let before := (← get).args.length
  modify fun p => { p with format }
  if ← pass (format.length + 1) then return
  let after := (← get).args.length
  match n with
  | 0 => return
  | n + 1 => if 0 < after && after < before then passes n format

/-- Prints arguments by a format. -/
def printf (args : List Bytes) : Run Nat := do
  match args with
  | [] => fail "usage: printf format [arg ...]"
  | format :: args =>
    let ((), p) ← (passes args.length format).run { format, args }
    return if p.failed then 1 else 0

end LocaleForge.Shell.Printing
