import LocaleForge.Decimal.Numeral
import LocaleForge.Utility.Directive
import LocaleForge.Utility.Echo

/-!
Printing arguments by a format, which is used again as long as arguments are left. Numbers with
fractions have extended precision.
-/

namespace LocaleForge.Utility.Print

open Decimal

/-- What is done in the course of printing. -/
inductive Event where
  | output (bs : Bytes)
  | complaint (message : Bytes)

/-- What an argument makes of its value. -/
structure Reading (α : Type) where
  value : α
  complaints : List Bytes := []
  failed : Bool := false

/-- The complaints about a number that leaves `rest` unread. -/
def judged {α : Type} (arg : Bytes) (value : α) (started outOfRange : Bool) (rest : Bytes) : Reading α :=
  let bad (message : Bytes) : Reading α := ⟨value, [Quotation.quoted arg ++ ": " ++ message], true⟩
  if outOfRange then bad "Numerical result out of range"
  else if rest.isEmpty then { value }
  else if started then bad "value not completely converted"
  else bad "expected a numeric value"

/-- The code of a character behind a quotation mark. -/
def character? (arg : Bytes) : Option (Reading Nat) :=
  match arg with
  | q :: c :: rest =>
    if q = '"' || q = '\'' then
      let ignored : Bytes :=
        "warning: " ++ rest ++ ": character(s) following character constant have been ignored"
      some { value := c.toNat, complaints := if rest.isEmpty then [] else [ignored] }
    else none
  | _ => none

/-- An integer between bounds. -/
def integer (least greatest : Int) (arg : Bytes) : Reading Int :=
  match character? arg with
  | some r => { r with value := r.value }
  | none =>
    match integer? 0 arg with
    | none => judged arg 0 false false arg
    | some (n, rest) =>
      judged arg (max least (min greatest n)) true (n < least || greatest < n) rest

/-- A number with a sign. -/
def signedOf : Bytes → Reading Int :=
  integer (Word.smallest 64) (Word.largest 64)

/-- A number without a sign; a negative one wraps around, up to the largest magnitude. -/
def unsignedOf (arg : Bytes) : Reading Int :=
  let top : Int := Word.count 64
  let r := integer (-top) top arg
  if r.value = top || r.value = -top then
    { r with value := top - 1, complaints := [Quotation.quoted arg ++ ": Numerical result out of range"], failed := true }
  else r

def fractionOf (arg : Bytes) : Reading Number :=
  match character? arg with
  | some r => { r with value := extended.ofInt r.value }
  | none =>
    match extended.scan? arg with
    | none => judged arg (extended.ofInt 0) false false arg
    | some ⟨n, outOfRange, rest⟩ => judged arg n true outOfRange rest

/-- A faulty format. -/
inductive Fault where
  | badWidth (arg : Bytes)
  | badPrecision (arg : Bytes)
  | badDirective (text : Bytes)
  | noHexDigits
  | badCharacter (letter : Char) (code : Nat)

def Fault.message : Fault → Bytes
  | badWidth arg => "invalid field width: " ++ Quotation.quoted arg
  | badPrecision arg => "invalid precision: " ++ Quotation.quoted arg
  | badDirective text => text ++ ": invalid conversion specification"
  | noHexDigits => "missing hexadecimal number in escape"
  | badCharacter letter code =>
    let ds := Nat.toDigits 16 code
    "invalid universal character name \\" ++ [letter] ++
      Bytes.filling '0' (if letter = 'u' then 4 else 8) ds ++ ds

/-- What remains to be printed. -/
structure Progress where
  format : Bytes
  args : List Bytes
  events : List Event := []
  failed : Bool := false

namespace Progress

def emit (p : Progress) (bs : Bytes) : Progress :=
  { p with events := .output bs :: p.events }

/-- Goes on behind a part of the format. -/
def goTo (p : Progress) (format : Bytes) : Progress :=
  { p with format }

/-- Takes the next argument, or an empty one. -/
def take {α : Type} (p : Progress) (read : Bytes → Reading α) : α × Progress :=
  let r := read (p.args.headD [])
  (r.value, { p with
    args := p.args.tail, failed := p.failed || r.failed
    events := (r.complaints.map .complaint).reverse ++ p.events })

end Progress

/-- The outcome of a step: nothing where an escape ends the output. -/
abbrev Step := Except (Option Fault) Progress

/-- A character by its code, which only ASCII has a byte for. -/
def character (letter : Char) (n : Nat) (p : Progress) (bs : Bytes) : Step :=
  let ds := bs.take n
  if ds.length < n || !ds.all (isDigitIn 16) then .error (some .noHexDigits)
  else
    let code := ofDigits 16 ds
    let rest := p.goTo (bs.drop n)
    if 0xd800 ≤ code && code ≤ 0xdfff then .error (some (.badCharacter letter code))
    else if code < 128 then .ok (rest.emit [Char.ofNat code])
    else
      let ds := (Nat.toDigits 16 code).map Char.toUpper
      let (mark, width) := if code < 65536 then ('u', 4) else ('U', 8)
      .ok (rest.emit ('\\' :: mark :: Bytes.filling '0' width ds ++ ds))

/-- An escape; with `zero` a zero may stand before its octal digits. -/
def escape (zero : Bool) (p : Progress) (bs : Bytes) : Step :=
  match bs with
  | [] => .ok ((p.goTo []).emit ['\\'])
  | 'c' :: _ => .error none
  | 'x' :: rest =>
    if rest.head?.any (isDigitIn 16) then
      let (b, rest) := Echo.digits 16 2 rest
      .ok ((p.goTo rest).emit [b])
    else .error (some .noHexDigits)
  | 'u' :: rest => character 'u' 4 p rest
  | 'U' :: rest => character 'U' 8 p rest
  | '"' :: rest => .ok ((p.goTo rest).emit ['"'])
  | c :: rest =>
    if isDigitIn 8 c then
      let (b, rest) := Echo.digits 8 3 (if zero && c = '0' then rest else bs)
      .ok ((p.goTo rest).emit [b])
    else
      match Echo.letter? c with
      | some b => .ok ((p.goTo rest).emit [b])
      | none => .ok ((p.goTo rest).emit ['\\', c])

/-- Prints a text with escapes; `n` bounds its length. -/
def escaped (n : Nat) (p : Progress) (bs : Bytes) : Except (Option Fault × Progress) Progress :=
  match n with
  | 0 => .ok p
  | n + 1 =>
    match bs with
    | [] => .ok p
    | '\\' :: rest =>
      match escape true (p.goTo rest) rest with
      | .ok q => escaped n q q.format
      | .error e => .error (e, p)
    | c :: rest => escaped n (p.emit [c]) rest

/-- The kinds of directives that a flag leaves possible. -/
def allows (flag kind : Char) : Bool :=
  match flag with
  | '\'' | 'I' => !"aAceEosxX".toList.contains kind
  | '#' => !"cdisu".toList.contains kind
  | '0' => !"cs".toList.contains kind
  | _ => true

/-- A directive behind its percent sign, other than those that escape or quote. -/
def directive (p : Progress) (bs : Bytes) : Except (Option Fault × Progress) Progress := do
  let bound : Int := Nat.pow 2 31
  let flags := bs.takeWhile "'I-+ #0".toList.contains
  let rest := bs.drop flags.length
  let (width, rest, p) ← match rest with
    | '*' :: more =>
      let (n, q) := if p.args.isEmpty then (0, p) else p.take signedOf
      if n < -bound || bound ≤ n then throw (some (.badWidth (p.args.headD [])), q)
      pure (n, more, q)
    | _ =>
      let (ds, rest) := digitsIn 10 rest
      pure ((ofDigits 10 ds : Int), rest, p)
  let (precision, rest, p) ← match rest with
    | '.' :: '*' :: more =>
      let (n, q) := if p.args.isEmpty then (0, p) else p.take signedOf
      if bound ≤ n then throw (some (.badPrecision (p.args.headD [])), q)
      pure (some n, more, q)
    | '.' :: more =>
      let (ds, rest) := digitsIn 10 more
      pure (some (ofDigits 10 ds : Int), rest, p)
    | _ => pure (none, rest, p)
  let rest := rest.dropWhile "lLhjtz".toList.contains
  let kind := rest.headD '\x00'
  let text := '%' :: bs.take (bs.length - rest.length + 1)
  if !"aAcdeEfFgGiosuxX".toList.contains kind || !flags.all (allows · kind) ||
      (precision.isSome && kind = 'c') then
    throw (some (.badDirective text), p)
  let d := (Directive.ofFlags kind flags).setWidth width
  let d := precision.elim d d.setPrecision
  let p := p.goTo (rest.drop 1)
  if kind = 's' then
    let (bs, p) := p.take fun arg => { value := arg }
    return p.emit (d.text bs)
  else if kind = 'c' then
    let (bs, p) := p.take fun arg => { value := [arg.headD '\x00'] }
    return p.emit (d.text bs)
  else if (Directive.form? kind).isSome then
    let (n, p) := p.take fractionOf
    return p.emit (d.number extended n)
  else
    let (n, p) := p.take (if kind = 'd' || kind = 'i' then signedOf else unsignedOf)
    return p.emit (d.integer n)

/-- Uses the format once; `n` bounds its length. -/
def pass (n : Nat) (p : Progress) : Except (Option Fault × Progress) Progress :=
  match n with
  | 0 => .ok p
  | n + 1 =>
    match p.format with
    | [] => .ok p
    | '%' :: '%' :: rest => pass n ((p.goTo rest).emit ['%'])
    | '%' :: 'b' :: rest => do
      let q ← escaped ((p.args.headD []).length + 1) p (p.args.headD [])
      pass n { q with format := rest, args := p.args.tail }
    | '%' :: 'q' :: rest =>
      let q := p.goTo rest
      pass n (match p.args with
        | arg :: args => { q with args }.emit (Quotation.word arg)
        | [] => q)
    | '%' :: rest => do pass n (← directive p rest)
    | '\\' :: rest =>
      match escape false (p.goTo rest) rest with
      | .ok q => pass n q
      | .error e => .error (e, p)
    | c :: rest => pass n ((p.goTo rest).emit [c])

/-- Uses the format until no argument is left; `n` bounds the number of times. -/
def passes (n : Nat) (format : Bytes) (p : Progress) : Except (Option Fault × Progress) Progress :=
  match n with
  | 0 => .ok p
  | n + 1 => do
    let q ← pass (format.length + 1) (p.goTo format)
    if q.args.isEmpty || q.args.length = p.args.length then return q
    passes n format q

/-- Carries out what was done in the course of printing. -/
def perform (name : Bytes) (status : Nat) : Bytes → List Event → Action Nat
  | held, [] => conclude name status held
  | held, .output bs :: es => perform name status (held ++ bs) es
  | held, .complaint message :: es => do
    -- The output up to here comes before the complaint.
    let r ← if held.isEmpty then pure (.ok ()) else Process.write Process.standardOutput held
    complain name message
    perform name (if r.toOption.isSome then status else 1) (if r.toOption.isSome then [] else held) es

def run : Utility := fun name args => do
  match if args.head? = some ['-', '-'] then args.tail else args with
  | [] => misuse name "missing operand"
  | format :: args =>
    match passes (args.length + 1) format { format, args } with
    | .ok p =>
      let excess : List Event := match p.args with
        | [] => []
        | a :: _ =>
          [.complaint ("warning: ignoring excess arguments, starting with " ++ Quotation.quoted a)]
      perform name (statusOf !p.failed) [] (p.events.reverse ++ excess)
    | .error (none, p) => perform name 0 [] p.events.reverse
    | .error (some e, p) => perform name 1 [] (p.events.reverse ++ [.complaint e.message])

end LocaleForge.Utility.Print
