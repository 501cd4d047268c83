import LocaleForge.Decimal.Numeral
import LocaleForge.Utility.Directive
import LocaleForge.Utility.Options

/-!
Printing the numbers from one to another by a step. Numbers without fractions are exact; others are
rounded to extended precision.
-/

namespace LocaleForge.Utility.Sequence

open Decimal

/-- A number as it is given. -/
structure Bound where
  value : Number
  /-- The number of places that it takes. -/
  width : Int := 0
  /-- The number of digits behind its point; nothing for a hexadecimal number with a fraction. -/
  places : Option Nat := some 0

/-- The number of places behind the point, and the width, of a decimal text. -/
def measure (text : Bytes) : Int × Nat :=
  let isMark (c : Char) : Bool := c = 'e' || c = 'E'
  let front := text.takeWhile (· != '.')
  let point := front.length < text.length
  let fraction := ((text.drop (front.length + 1)).takeWhile (!isMark ·)).length
  let width : Int :=
    if !point then text.length
    else if fraction = 0 then text.length - 1
    else if front.getLast?.any Char.isDigit then text.length
    else text.length + 1
  let mantissa := text.takeWhile (!isMark ·)
  match text.drop mantissa.length with
  | [] => (width, fraction)
  | _ :: digits =>
    let exponent := ((integer? 10 digits).map (·.1)).getD 0
    let n := exponent.natAbs
    let width := width - (digits.length + 1 : Nat)
    if exponent < 0 then
      let width := if !point || mantissa.getLast? = some '.' then width + 1 else width
      (width + n, fraction + n)
    else
      let places := fraction - min fraction n
      let width := if point && places = 0 && fraction ≠ 0 then width - 1 else width
      (width + (n - min fraction n : Nat), places)

/-- Reads a number, or tells what is wrong with it. -/
def bound (text : Bytes) : Except Bytes Bound :=
  let bad : Except Bytes Bound := .error ("invalid floating point argument: " ++ Quotation.quoted text)
  match extended.scan? text with
  | none => bad
  | some ⟨value, outOfRange, rest⟩ =>
    if !rest.isEmpty || (outOfRange && !value.isZero) then bad
    else
      match value with
      | .nan _ => .error ("invalid 'not-a-number' argument: " ++ Quotation.quoted text)
      | _ =>
        let text := text.dropWhile fun c => Bytes.isSpace c || c = '+'
        let isFinite := match value with
          | .finite .. => true
          | _ => false
        if isFinite && !text.contains 'x' && !text.contains 'X' then
          let (width, places) := measure text
          .ok { value, width, places := some places }
        else if text.contains '.' || text.contains 'p' then .ok { value, places := none }
        else .ok { value }

/-- A format: the texts around a number and the directive that writes it. -/
structure Format where
  front : Bytes := []
  directive : Directive
  behind : Bytes := []

def Format.write (f : Format) (n : Number) : Bytes :=
  f.front ++ f.directive.number extended n ++ f.behind

/-- The text up to a directive, with doubled percent signs made single ones. -/
def plain : Bytes → Bytes × Bytes
  | '%' :: '%' :: cs => let (a, b) := plain cs; ('%' :: a, b)
  | '%' :: cs => ([], '%' :: cs)
  | c :: cs => let (a, b) := plain cs; (c :: a, b)
  | [] => ([], [])

/-- Reads a format, or tells what is wrong with it. -/
def format (text : Bytes) : Except Bytes Format :=
  let bad (message : Bytes) : Except Bytes Format := .error ("format " ++ Quotation.quoted text ++ message)
  match plain text with
  | (_, []) => bad " has no % directive"
  | (front, _ :: rest) =>
    let flags := rest.takeWhile "-+#0 '".toList.contains
    let rest := rest.drop flags.length
    let (width, rest) := digitsIn 10 rest
    let (precision, rest) := match rest with
      | '.' :: more => let (ds, rest) := digitsIn 10 more; (some (ofDigits 10 ds), rest)
      | _ => (none, rest)
    let rest := if rest.head? = some 'L' then rest.drop 1 else rest
    match rest with
    | [] => bad " ends in %"
    | kind :: rest =>
      if !"efgaEFGA".toList.contains kind then bad (" has unknown %" ++ [kind] ++ " directive")
      else
        match plain rest with
        | (behind, []) =>
          .ok ⟨front, { Directive.ofFlags kind flags with width := ofDigits 10 width, precision }, behind⟩
        | _ => bad " has too many % directives"

/-- The format for numbers between bounds. -/
def usualFormat (equalWidth : Bool) (first step last : Bound) : Format :=
  match first.places, step.places, last.places with
  | some a, some b, some c =>
    let places := max a b
    let base : Directive := { kind := 'f', precision := some places }
    if !equalWidth then { directive := base }
    else
      let firstWidth := first.width + (places - a : Nat) + if a = 0 && places ≠ 0 then 1 else 0
      let lastWidth := last.width + ((places : Int) - c) -
        (if c ≠ 0 && places = 0 then 1 else 0) + if c = 0 && places ≠ 0 then 1 else 0
      { directive := { base with zeros := true, width := (max firstWidth lastWidth).toNat } }
  | _, _, _ => { directive := { kind := 'g' } }

/-- The most numbers that are printed. -/
def maxCount := 300000

/-- The texts of `first + i * step` up to `last`, and of the number behind it if that reads as `last`
and differs from the one before. `n` bounds the number of them. -/
def texts (f : Format) (first step last : Number) (n i : Nat) (x : Number) : List Bytes :=
  match n with
  | 0 => []
  | n + 1 =>
    let beyond (x : Number) : Bool := if step.isNegative then x.lt last else last.lt x
    let next := extended.add first (extended.mul (extended.ofInt (i + 1)) step)
    let shown := f.directive.number extended next
    let readsAsLast := match extended.scan? shown with
      | some ⟨v, outOfRange, []⟩ => v.same last && (v.isZero || !outOfRange)
      | _ => false
    f.write x ::
      if !beyond next then texts f first step last n (i + 1) next
      else if readsAsLast && shown ≠ f.directive.number extended x then [f.write next]
      else []

/-- The texts of the numbers between bounds. -/
def series (f : Format) (first step last : Number) : List Bytes :=
  if if step.isNegative then first.lt last else last.lt first then []
  else texts f first step last maxCount 0 first

/-- The numbers between bounds without fractions; there may be no last one. -/
def exact (first step : Nat) (last : Option Nat) : List Bytes :=
  let count := match last with
    | some last => if first ≤ last then min maxCount ((last - first) / step + 1) else 0
    | none => maxCount
  (List.range count).map fun i => Bytes.ofNat (first + i * step)

/-- The value of a number that is a whole one. -/
def whole? (b : Bound) : Option Nat :=
  match b.value with
  | .finite s m q => if b.places = some 0 && !s then some (roundDiv (m * two q) (two (-q))) else none
  | _ => none

/-- The largest step for which whole numbers are counted exactly. -/
def maxExactStep := 200

def options : OptionTable Char where
  letters := [('f', .required, 'f'), ('s', .required, 's'), ('w', .plain, 'w')]
  words := [("equal-width", .plain, 'w'), ("format", .required, 'f'), ("separator", .required, 's')]
  permutes := false
  isOperand arg :=
    match arg with
    | '-' :: c :: _ => c = '.' || c.isDigit
    | _ => false

/-- The last value given for an option. -/
def valueOf (a : Arguments Char) (c : Char) : Option Bytes :=
  (a.options.filter (·.1 = c)).getLast?.bind (·.2)

/-- A complaint, and whether it goes with a hint at the rules. -/
structure Complaint where
  message : Bytes
  hinted : Bool := true

/-- The texts of the numbers that the arguments ask for. -/
def numbers (a : Arguments Char) (separator : Bytes) : Except Complaint (List Bytes) := do
  let misuse {α : Type} (r : Except Bytes α) : Except Complaint α := r.mapError fun m => { message := m }
  let wide := a.options.any (·.1 = 'w')
  let one : Bound := { value := extended.ofInt 1, width := 1 }
  match a.operands with
  | [] => throw { message := "missing operand" }
  | _ :: _ :: _ :: extra :: _ => throw { message := "extra operand " ++ Quotation.quoted extra }
  | operands =>
    let given ← match valueOf a 'f' with
      | some text => ((format text).map some).mapError fun m => ⟨m, false⟩
      | none => pure none
    if given.isSome && wide then
      throw { message := "format string may not be specified when printing equal width strings" }
    let exactly := !wide && given.isNone && separator.length = 1
    let finish (first step last : Bound) : List Bytes :=
      let f := given.getD (usualFormat wide first step last)
      let endless := match last.value with
        | .infinite false => last.places = some 0
        | _ => false
      match whole? first, whole? step with
      | some m, some k =>
        if exactly && 0 < k && k ≤ maxExactStep && (endless || (whole? last).isSome) then
          exact m k (whole? last)
        else series f first.value step.value last.value
      | _, _ => series f first.value step.value last.value
    let natural (ts : List Bytes) : Bool := exactly && ts.all isNumeral
    match operands with
    | [last] =>
      if natural [last] then return exact 1 1 (some (ofDigits 10 last))
      return finish one one (← misuse (bound last))
    | [first, last] =>
      if natural [first, last] then return exact (ofDigits 10 first) 1 (some (ofDigits 10 last))
      let b ← misuse (bound first)
      return finish b one (← misuse (bound last))
    | first :: step :: last :: _ =>
      let k := ofDigits 10 step
      if natural [first, step, last] && 0 < k && k ≤ maxExactStep then
        return exact (ofDigits 10 first) k (some (ofDigits 10 last))
      let b ← misuse (bound first)
      let s ← misuse (bound step)
      if s.value.isZero then throw { message := "invalid Zero increment value: " ++ Quotation.quoted step }
      return finish b s (← misuse (bound last))
    | [] => return []

def run : Utility := fun name args => do
  let a := options.read args
  match a.fault with
  | some message => misuse name message
  | none =>
    let separator := (valueOf a 's').getD ['\n']
    match numbers a separator with
    | .error ⟨message, true⟩ => misuse name message
    | .error ⟨message, false⟩ =>
      complain name message
      return 1
    | .ok [] => return 0
    | .ok ts => conclude name 0 (List.intercalate separator ts ++ ['\n'])

end LocaleForge.Utility.Sequence
