import LocaleForge.Decimal.Binary

/-!
The decimal with the fewest digits that reads back as a double-precision number.
-/

namespace LocaleForge.Decimal

/-- A decimal `digits * 10 ^ exponent`. -/
structure Short where
  digits : Nat
  exponent : Int
deriving DecidableEq, Repr

/-- The multiple of `10 ^ k` nearest to `m * 2 ^ q`, if one lies in the interval of the numbers
that round to this double; the ends belong to it when `m` is even. Of two that are as near the
larger one is taken. -/
def onGrid? (m : Nat) (q k : Int) : Option Short :=
  let scale := Nat.pow 2 (q - 2).toNat * Nat.pow 10 (-k).toNat
  let unit := Nat.pow 2 (2 - q).toNat * Nat.pow 10 k.toNat
  let value := 4 * m * scale
  let low := (4 * m - (if m = Nat.pow 2 52 ∧ double.least < q then 1 else 2)) * scale
  let high := (4 * m + 2) * scale
  let hits (c : Nat) : Bool :=
    if m % 2 = 0 then low ≤ c * unit && c * unit ≤ high
    else low < c * unit && c * unit < high
  let c := value / unit
  let below := 0 < c && hits c
  let above := hits (c + 1)
  if below && (!above || 2 * (value % unit) < unit) then some ⟨c, k⟩
  else if above then some ⟨c + 1, k⟩
  else none

/-- The first hit on the grids `10 ^ k`, `10 ^ (k - 1)`, and so on. -/
def search (m : Nat) (q : Int) : Nat → Int → Short
  | 0, k => ⟨0, k⟩
  | n + 1, k => (onGrid? m q k).getD (search m q n (k - 1))

/-- The decimal with the fewest digits that rounds to `m * 2 ^ q`. -/
def shortest (m : Nat) (q : Int) : Short :=
  search m q 700 309

/-- A decimal in positional notation with at least one digit on both sides of the point. -/
def Short.positional (d : Short) : String :=
  let ds := Nat.toDigits 10 d.digits
  if 0 ≤ d.exponent then
    String.ofList (ds ++ List.replicate d.exponent.toNat '0') ++ ".0"
  else
    let places := (-d.exponent).toNat
    let ds := List.replicate (places + 1 - ds.length) '0' ++ ds
    String.ofList (ds.take (ds.length - places)) ++ "." ++ String.ofList (ds.drop (ds.length - places))

/-- The shortest text of a double-precision number. -/
def Number.text : Number → String
  | .finite negative m q =>
    (if negative then "-" else "") ++ (if m = 0 then "0.0" else (shortest m q).positional)
  | .infinite negative => if negative then "-inf" else "inf"
  | .nan _ => "NaN"

end LocaleForge.Decimal
