import LocaleForge.Bytes
import LocaleForge.Decimal.Binary

/-!
Numbers at the front of a text, with the text behind them: integers in a base, and decimal or
hexadecimal numbers with fractions and exponents.
-/

namespace LocaleForge.Decimal

/-- The value of a digit, where letters go on behind 9. -/
def digitValue? (c : Char) : Option Nat :=
  if c.isDigit then some (c.toNat - '0'.toNat)
  else if c.isLower then some (c.toNat - 'a'.toNat + 10)
  else if c.isUpper then some (c.toNat - 'A'.toNat + 10)
  else none

def isDigitIn (base : Nat) (c : Char) : Bool :=
  (digitValue? c).any (· < base)

/-- The number that digits stand for. -/
def ofDigits (base : Nat) (ds : Bytes) : Nat :=
  ds.foldl (fun n c => n * base + (digitValue? c).getD 0) 0

/-- The digits at the front, and the text behind them. -/
def digitsIn (base : Nat) (bs : Bytes) : Bytes × Bytes :=
  (bs.takeWhile (isDigitIn base), bs.dropWhile (isDigitIn base))

/-- Holds digits only and at least one. -/
def isNumeral (bs : Bytes) : Bool :=
  !bs.isEmpty && bs.all Char.isDigit

/-- A sign at the front. -/
def signed : Bytes → Bool × Bytes
  | '-' :: bs => (true, bs)
  | '+' :: bs => (false, bs)
  | bs => (false, bs)

/-- Digits whose base is told by what they begin with: 0x, a zero, or neither. -/
def prefixed (bs : Bytes) : Nat × Bytes × Bytes :=
  match bs with
  | '0' :: x :: c :: rest =>
    if (x = 'x' || x = 'X') && isDigitIn 16 c then (16, digitsIn 16 (c :: rest))
    else (8, digitsIn 8 bs)
  | '0' :: _ => (8, digitsIn 8 bs)
  | _ => (10, digitsIn 10 bs)

/-- An integer at the front, behind blanks and a sign; base zero leaves the base to what the digits
begin with. -/
def integer? (base : Nat) (bs : Bytes) : Option (Int × Bytes) :=
  let (negative, ds) := signed (bs.dropWhile Bytes.isSpace)
  let (base, digits, rest) := if base = 0 then prefixed ds else (base, digitsIn base ds)
  if digits.isEmpty then none
  else
    let n := ofDigits base digits
    some (if negative then -(n : Int) else n, rest)

/-- A number read from a text. -/
structure Scanned where
  number : Number
  /-- It is too large, or too small to be told from its neighbours. -/
  outOfRange : Bool
  rest : Bytes

namespace Precision

/-- Nonzero, and too small for all digits of the precision. -/
def isTiny (p : Precision) : Number → Bool
  | .finite _ m _ => m < Nat.pow 2 (p.digits - 1)
  | _ => false

/-- The rest behind a word, whatever the case of its letters. -/
def behindWord? (word bs : Bytes) : Option Bytes :=
  if (bs.take word.length).map Char.toLower = word then some (bs.drop word.length) else none

/-- The exponent behind a letter, if digits follow it. -/
def exponent (letter : Char) (bs : Bytes) : Int × Bytes :=
  match bs with
  | c :: rest =>
    if c.toLower = letter then
      let (negative, ds) := signed rest
      let (digits, rest) := digitsIn 10 ds
      if digits.isEmpty then (0, bs)
      else
        let n : Int := ofDigits 10 digits
        (if negative then -n else n, rest)
    else (0, bs)
  | [] => (0, [])

/-- Digits on both sides of a point, if there are any, and the text behind them. -/
def mantissa? (base : Nat) (bs : Bytes) : Option (Bytes × Nat × Bytes) :=
  let (whole, rest) := digitsIn base bs
  let (fraction, rest) := match rest with
    | '.' :: more =>
      let (fraction, behind) := digitsIn base more
      if whole.isEmpty && fraction.isEmpty then ([], rest) else (fraction, behind)
    | _ => ([], rest)
  if whole.isEmpty && fraction.isEmpty then none
  else some (whole ++ fraction, fraction.length, rest)

/-- A rounded number with the mark whether it is out of range. -/
def scanned (p : Precision) (number : Number) (exact : Bool) (rest : Bytes) : Scanned :=
  let tooLarge := match number with
    | .infinite _ => true
    | _ => false
  ⟨number, tooLarge || (!exact && p.isTiny number), rest⟩

/-- A hexadecimal number behind its prefix. -/
def hexadecimal? (p : Precision) (negative : Bool) (bs : Bytes) : Option Scanned := do
  let (digits, places, rest) ← mantissa? 16 bs
  let (e, rest) := exponent 'p' rest
  let n := ofDigits 16 digits
  let q := e - 4 * places
  let number := p.ofBinary negative n q
  let exact := match number with
    | .finite _ m r => n = 0 || (q - r < 5000 && r - q < 5000 && n * two (q - r) = m * two (r - q))
    | _ => true
  some (p.scanned number exact rest)

/-- A decimal number. -/
def decimal? (p : Precision) (negative : Bool) (bs : Bytes) : Option Scanned := do
  let (digits, places, rest) ← mantissa? 10 bs
  let (e, rest) := exponent 'e' rest
  let n := ofDigits 10 digits
  some (p.scanned (p.ofDecimal negative n (e - places)) (n = 0) rest)

/-- Behind the remark in parentheses that may follow the word for no number. -/
def behindRemark (bs : Bytes) : Bytes :=
  match bs with
  | '(' :: rest =>
    match rest.dropWhile Bytes.isNameChar with
    | ')' :: behind => behind
    | _ => bs
  | _ => bs

/-- A number at the front of a text, behind blanks and a sign. -/
def scan? (p : Precision) (bs : Bytes) : Option Scanned :=
  let (negative, ds) := signed (bs.dropWhile Bytes.isSpace)
  match behindWord? "infinity".toList ds with
  | some rest => some ⟨.infinite negative, false, rest⟩
  | none =>
    match behindWord? "inf".toList ds with
    | some rest => some ⟨.infinite negative, false, rest⟩
    | none =>
      match behindWord? "nan".toList ds with
      | some rest => some ⟨.nan negative, false, behindRemark rest⟩
      | none =>
        match (behindWord? "0x".toList ds).bind (p.hexadecimal? negative) with
        | some s => some s
        | none => p.decimal? negative ds

end Precision

end LocaleForge.Decimal
