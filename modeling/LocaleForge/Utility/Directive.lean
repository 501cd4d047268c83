import LocaleForge.Decimal.Layout
import LocaleForge.Word

/-!
Directives of printing formats: how a text, an integer or a number fills its column.
-/

namespace LocaleForge.Utility

/-- A directive of a format, with its sizes worked out. -/
structure Directive where
  /-- Stands at the left of its column. -/
  left : Bool := false
  /-- A sign is written for numbers that are not negative, too. -/
  plus : Bool := false
  /-- A blank is written where a minus sign would stand. -/
  gap : Bool := false
  /-- Prefixes of bases and idle points are written. -/
  alternative : Bool := false
  /-- The column is filled with zeros. -/
  zeros : Bool := false
  width : Nat := 0
  precision : Option Nat := none
  kind : Char
deriving Repr

namespace Directive

/-- The flag of a character. -/
def flag (d : Directive) (c : Char) : Directive :=
  match c with
  | '-' => { d with left := true }
  | '+' => { d with plus := true }
  | ' ' => { d with gap := true }
  | '#' => { d with alternative := true }
  | '0' => { d with zeros := true }
  | _ => d

/-- A directive with the flags of some characters. -/
def ofFlags (kind : Char) (flags : Bytes) : Directive :=
  flags.foldl flag { kind }

/-- The directive with a width given as a number; a negative one stands for the left of a column. -/
def setWidth (d : Directive) (n : Int) : Directive :=
  if n < 0 then { d with left := true, width := n.natAbs } else { d with width := n.natAbs }

/-- The directive with a precision given as a number; a negative one counts as none. -/
def setPrecision (d : Directive) (n : Int) : Directive :=
  { d with precision := if n < 0 then none else some n.natAbs }

/-- Fills the column; zeros come behind the sign or prefix in `front`. -/
def fill (d : Directive) (zeros : Bool) (front body : Bytes) : Bytes :=
  let missing := d.width - (front.length + body.length)
  if d.left then front ++ body ++ List.replicate missing ' '
  else if zeros then front ++ List.replicate missing '0' ++ body
  else List.replicate missing ' ' ++ front ++ body

def text (d : Directive) (bs : Bytes) : Bytes :=
  d.fill false [] (d.precision.elim bs bs.take)

def sign (d : Directive) (negative : Bool) : Bytes :=
  if negative then ['-'] else if d.plus then ['+'] else if d.gap then [' '] else []

/-- Digits with zeros in front up to the precision; zero has no digit at precision zero. -/
def digits (d : Directive) (base n : Nat) : Bytes :=
  let ds := if n = 0 && d.precision == some 0 then [] else Nat.toDigits base n
  Bytes.filling '0' (d.precision.getD 1) ds ++ ds

/-- An integer of 64 bits as the kind of the directive writes it. -/
def integer (d : Directive) (n : Int) : Bytes :=
  let zeros := d.zeros && d.precision.isNone
  let unsigned := (n % Word.count 64).toNat
  match d.kind with
  | 'd' | 'i' => d.fill zeros (d.sign (n < 0)) (d.digits 10 n.natAbs)
  | 'o' =>
    let ds := d.digits 8 unsigned
    d.fill zeros [] (if d.alternative && ds.head? != some '0' then '0' :: ds else ds)
  | 'x' => d.fill zeros (if d.alternative && unsigned ≠ 0 then ['0', 'x'] else []) (d.digits 16 unsigned)
  | 'X' =>
    d.fill zeros (if d.alternative && unsigned ≠ 0 then ['0', 'X'] else [])
      ((d.digits 16 unsigned).map Char.toUpper)
  | _ => d.fill zeros [] (d.digits 10 unsigned)

/-- The kinds of directives that write numbers with fractions. -/
def form? (kind : Char) : Option Decimal.Form :=
  match kind.toLower with
  | 'f' => some .fixed
  | 'e' => some .scientific
  | 'g' => some .general
  | 'a' => some .hexadecimal
  | _ => none

/-- A number with a fraction as the kind of the directive writes it. -/
def number (d : Directive) (p : Decimal.Precision) (n : Decimal.Number) : Bytes :=
  let layout : Decimal.Layout :=
    { form := (form? d.kind).getD .fixed, precision := d.precision, keepsPoint := d.alternative
      upper := d.kind.isUpper }
  let body := layout.magnitude p n
  let isFinite := match n with
    | .finite .. => true
    | _ => false
  let marked := isFinite && layout.form = .hexadecimal
  let front := d.sign n.isNegative ++ if marked then body.take 2 else []
  d.fill (d.zeros && isFinite) front (if marked then body.drop 2 else body)

end Directive

end LocaleForge.Utility
