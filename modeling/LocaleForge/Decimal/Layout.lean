import LocaleForge.Bytes
import LocaleForge.Decimal.Binary

/-!
The texts of a binary number: with a fixed number of places, with an exponent, in the shorter of
these two forms, and in hexadecimal. Each is rounded from the exact value; a half goes to the even
neighbour.
-/

namespace LocaleForge.Decimal

/-- The forms in which a number is written. -/
inductive Form where
  | fixed
  | scientific
  | general
  | hexadecimal
deriving DecidableEq, Repr

/-- How a number is written. -/
structure Layout where
  form : Form
  precision : Option Nat := none
  /-- The point stays also where no digit follows it. -/
  keepsPoint : Bool := false
  upper : Bool := false

/-- Digits with a point before the last `places` of them. -/
def pointed (keepsPoint : Bool) (places : Nat) (ds : Bytes) : Bytes :=
  let ds := Bytes.filling '0' (places + 1) ds ++ ds
  let whole := ds.take (ds.length - places)
  if places = 0 then whole ++ (if keepsPoint then ['.'] else [])
  else whole ++ '.' :: ds.drop (ds.length - places)

/-- The magnitude `m * 2 ^ q` with so many places behind the point. -/
def fixedText (keepsPoint : Bool) (places : Nat) (m : Nat) (q : Int) : Bytes :=
  pointed keepsPoint places (Bytes.ofNat (roundDiv (m * two q * Nat.pow 10 places) (two (-q))))

/-- The decimal exponent of a positive fraction. -/
def log10Fraction (num den : Nat) : Int :=
  let a : Int := ((Nat.toDigits 10 num).length : Int) - (Nat.toDigits 10 den).length
  if den * ten a ≤ num * ten (-a) then a else a - 1

/-- The digits of a magnitude rounded to `places + 1` of them, with the exponent of the first. -/
def rounded (places : Nat) (m : Nat) (q : Int) : Bytes × Int :=
  if m = 0 then (List.replicate (places + 1) '0', 0)
  else
    let e := log10Fraction (m * two q) (two (-q))
    let shift : Int := places - e
    let n := roundDiv (m * two q * ten shift) (two (-q) * ten (-shift))
    let ds := Bytes.ofNat n
    if places + 1 < ds.length then (ds.take (places + 1), e + 1) else (ds, e)

/-- An exponent with its sign and at least `width` digits. -/
def exponentText (width : Nat) (e : Int) : Bytes :=
  let ds := Bytes.ofNat e.natAbs
  (if e < 0 then '-' else '+') :: Bytes.filling '0' width ds ++ ds

def scientificText (keepsPoint : Bool) (places : Nat) (m : Nat) (q : Int) : Bytes :=
  let (ds, e) := rounded places m q
  pointed keepsPoint places ds ++ 'e' :: exponentText 2 e

/-- The text without zeros at the end of its fraction, and without a point that nothing follows. -/
def withoutZeros (bs : Bytes) : Bytes :=
  if bs.contains '.' then
    match bs.reverse.dropWhile (· == '0') with
    | '.' :: rest => rest.reverse
    | rest => rest.reverse
  else bs

/-- The form with an exponent is used for exponents below -4 or beyond the number of digits. -/
def generalText (keepsPoint : Bool) (digits : Nat) (m : Nat) (q : Int) : Bytes :=
  let digits := max digits 1
  let (ds, e) := rounded (digits - 1) m q
  let trimmed (bs : Bytes) : Bytes := if keepsPoint then bs else withoutZeros bs
  if e < -4 ∨ (digits : Int) ≤ e then
    trimmed (pointed keepsPoint (digits - 1) ds) ++ 'e' :: exponentText 2 e
  else trimmed (fixedText keepsPoint (digits - 1 - e).toNat m q)

/-- A magnitude in hexadecimal. All numbers of a precision have their leading digit at the same
place of the mantissa; the smallest ones have a zero there. -/
def hexText (p : Precision) (l : Layout) (m : Nat) (q : Int) : Bytes :=
  -- The mantissa has `p.digits` binary digits, of which the last `4 * places` stand behind the point.
  let places := (p.digits - 1) / 4
  let e : Int := if m = 0 then 0 else q + 4 * places
  let kept := l.precision.getD places
  let scaled :=
    if places ≤ kept then m * Nat.pow 16 (kept - places)
    else roundDiv m (Nat.pow 16 (places - kept))
  -- Rounding up may take one more leading digit.
  let carries := Nat.pow 16 (kept + 1) ≤ scaled
  let (scaled, e) := if carries then (scaled / 16, e + 4) else (scaled, e)
  let text := pointed (l.keepsPoint || l.precision.isNone) kept (Nat.toDigits 16 scaled)
  let text :=
    if l.precision.isNone then withoutZeros text ++ (if l.keepsPoint && m % Nat.pow 16 places = 0 then ['.'] else [])
    else text
  "0x".toList ++ text ++ 'p' :: exponentText 1 e

/-- The text of a number without its sign. -/
def Layout.magnitude (l : Layout) (p : Precision) (n : Number) : Bytes :=
  let text := match n with
    | .infinite _ => "inf".toList
    | .nan _ => "nan".toList
    | .finite _ m q =>
      match l.form with
      | .fixed => fixedText l.keepsPoint (l.precision.getD 6) m q
      | .scientific => scientificText l.keepsPoint (l.precision.getD 6) m q
      | .general => generalText l.keepsPoint (l.precision.getD 6) m q
      | .hexadecimal => hexText p l m q
  if l.upper then text.map Char.toUpper else text

end LocaleForge.Decimal
