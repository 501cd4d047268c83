/-!
Binary numbers of a fixed precision as exact fractions: the number nearest to a fraction or a
decimal, sums and products. All arithmetic is on integers; a half goes to the even neighbour.
-/

namespace LocaleForge.Decimal

/-- What a kind of numbers can hold: so many binary digits, times a power of two with an exponent
between two bounds. -/
structure Precision where
  digits : Nat
  least : Int
  greatest : Int
deriving DecidableEq, Repr

/-- Double precision. -/
def double : Precision :=
  ⟨53, -1074, 971⟩

/-- Extended precision, with 64 binary digits. -/
def extended : Precision :=
  ⟨64, -16445, 16320⟩

/-- A binary number. A finite one has the magnitude `m * 2 ^ q`. -/
inductive Number where
  | finite (negative : Bool) (m : Nat) (q : Int)
  | infinite (negative : Bool)
  | nan (negative : Bool)
deriving DecidableEq, Repr

/-- A power of two. -/
def two (n : Int) : Nat :=
  Nat.pow 2 n.toNat

/-- A power of ten. -/
def ten (n : Int) : Nat :=
  Nat.pow 10 n.toNat

/-- The quotient rounded to the nearest integer; a half goes to the even neighbour. -/
def roundDiv (num den : Nat) : Nat :=
  let q := num / den
  let r := num % den
  if 2 * r < den then q
  else if den < 2 * r then q + 1
  else if q % 2 = 0 then q else q + 1

/-- The integer part of the binary logarithm of a positive fraction. -/
def log2Fraction (num den : Nat) : Int :=
  let a : Int := (num.log2 : Int) - den.log2
  if den * two a ≤ num * two (-a) then a else a - 1

namespace Precision

/-- The number nearest to a fraction. -/
def nearest (p : Precision) (negative : Bool) (num den : Nat) : Number :=
  if num = 0 then .finite negative 0 p.least
  else
    let q := max (log2Fraction num den - (p.digits - 1 : Nat)) p.least
    let m := roundDiv (num * two (-q)) (den * two q)
    let (m, q) := if m = Nat.pow 2 p.digits then (Nat.pow 2 (p.digits - 1), q + 1) else (m, q)
    if p.greatest < q then .infinite negative else .finite negative m q

/-- The number nearest to `digits * 10 ^ e`. -/
def ofDecimal (p : Precision) (negative : Bool) (digits : Nat) (e : Int) : Number :=
  let size : Int := (Nat.toDigits 10 digits).length + e
  if digits = 0 ∨ size < p.least / 3 - 20 then .finite negative 0 p.least
  else if p.greatest / 3 + 40 < size then .infinite negative
  else p.nearest negative (digits * ten e) (ten (-e))

/-- The number nearest to `m * 2 ^ q`. -/
def ofBinary (p : Precision) (negative : Bool) (m : Nat) (q : Int) : Number :=
  if m = 0 ∨ (m.log2 : Int) + q < p.least - 2 then .finite negative 0 p.least
  else if p.greatest + p.digits < (m.log2 : Int) + q then .infinite negative
  else p.nearest negative (m * two q) (two (-q))

/-- The integer `n` as a number. -/
def ofInt (p : Precision) (n : Int) : Number :=
  p.nearest (n < 0) n.natAbs 1

/-- The sum, rounded. -/
def add (p : Precision) : Number → Number → Number
  | .nan s, _ => .nan s
  | _, .nan s => .nan s
  | .infinite s, .infinite t => if s = t then .infinite s else .nan true
  | .infinite s, _ => .infinite s
  | _, .infinite s => .infinite s
  | .finite s m q, .finite t n r =>
    let low := min q r
    let signed (negative : Bool) (k : Nat) : Int := if negative then -(k : Int) else k
    let sum := signed s (m * two (q - low)) + signed t (n * two (r - low))
    p.ofBinary (if sum = 0 then s && t else sum < 0) sum.natAbs low

/-- The product, rounded. -/
def mul (p : Precision) : Number → Number → Number
  | .nan s, _ => .nan s
  | _, .nan s => .nan s
  | .infinite s, .infinite t => .infinite (s != t)
  | .infinite s, .finite t n _ => if n = 0 then .nan true else .infinite (s != t)
  | .finite s m _, .infinite t => if m = 0 then .nan true else .infinite (s != t)
  | .finite s m q, .finite t n r => p.ofBinary (s != t) (m * n) (q + r)

end Precision

namespace Number

def isNegative : Number → Bool
  | finite s .. => s
  | infinite s => s
  | nan s => s

def isZero : Number → Bool
  | finite _ m _ => m = 0
  | _ => false

/-- The number with the other sign. -/
def negate : Number → Number
  | finite s m q => finite (!s) m q
  | infinite s => infinite (!s)
  | nan s => nan (!s)

/-- The first number is smaller than the second one. -/
def lt : Number → Number → Bool
  | nan _, _ | _, nan _ => false
  | infinite s, infinite t => s && !t
  | infinite s, finite .. => s
  | finite .., infinite t => !t
  | finite s m q, finite t n r =>
    let low := min q r
    let signed (negative : Bool) (k : Nat) : Int := if negative then -(k : Int) else k
    signed s (m * two (q - low)) < signed t (n * two (r - low))

/-- The numbers are equal as values, whatever the sign of a zero. -/
def same (a b : Number) : Bool :=
  match a, b with
  | nan _, _ | _, nan _ => false
  | a, b => !a.lt b && !b.lt a

end Number

end LocaleForge.Decimal
