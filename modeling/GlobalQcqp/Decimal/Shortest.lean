import GlobalQcqp.Decimal.Rounded
/-!
# Shortest decimals

The fewest digits that read back as the same machine number, and of those the nearest to it.  On the
grid of decimals with a given number of digits only the two neighbours of the value need to be
tried.
-/

namespace GlobalQcqp.Decimal

/-- The rationals that round to a machine number, in units of a quarter of its last place. -/
structure Rounding where
  value : Quotient
  below : Quotient
  above : Quotient
  closed : Bool

/-- At a power of two the numbers below lie twice as close as those above. -/
def Rounding.ofBinary (m : Nat) (e : Int) : Rounding where
  value := Quotient.ofBinary (4 * m) (e - 2)
  below :=
    Quotient.ofBinary (if m == Nat.pow 2 52 && e != -1074 then 4 * m - 1 else 4 * m - 2) (e - 2)
  above := Quotient.ofBinary (4 * m + 2) (e - 2)
  closed := m % 2 == 0

private def compareNat (v : Quotient) (n : Nat) : Ordering :=
  compare v.num (n * v.den)

private def admits (r : Rounding) (k : Int) (n : Nat) : Bool :=
  let low := compareNat (r.below.shift k) n
  let high := compareNat (r.above.shift k) n
  (low == .lt || (r.closed && low == .eq)) && (high == .gt || (r.closed && high == .eq))

/-- The neighbour of the value on the grid of `digits` digits that reads back, the nearer one of
two. -/
private def onGrid (r : Rounding) (exponent : Int) (digits : Nat) : Option Nat :=
  let k : Int := digits - 1 - exponent
  let scaled := r.value.shift k
  let down := scaled.num / scaled.den
  let nearest := scaled.round
  let other := if nearest == down then down + 1 else down
  if admits r k nearest then some nearest
  else if admits r k other then some other
  else none

/-- The first number of digits with a decimal that reads back, and that decimal without its
point. -/
def shortestDigits (m : Nat) (e : Int) : Nat × Nat :=
  let r := Rounding.ofBinary m e
  let k := r.value.decimalExponent
  let found := (List.range 17).findSome? fun i ↦ (onGrid r k (i + 1)).map (i + 1, ·)
  found.getD (17, (r.value.shift (16 - k)).round)

/-- Text with the fewest digits: written out from `10 ^ (-4)` up to `10 ^ 16`, else with an
exponent. -/
def shortest (x : Float) : String :=
  match Binary.ofFloat x with
  | .undefined => "nan"
  | .infinite negative => if negative then "-inf" else "inf"
  | .finite negative m e =>
    let sign := if negative then "-" else ""
    if m == 0 then sign ++ "0.0"
    else
      let (count, n) := shortestDigits m e
      let k := (Quotient.ofBinary m e).decimalExponent
      let (count, n, k) := if n == Nat.pow 10 count then (1, 1, k + 1) else (count, n, k)
      if k < -4 || 16 ≤ k then
        sign ++ pointed (count - 1) n ++ exponentText k
      else if 0 ≤ k then
        let k := k.toNat
        if k + 1 < count then sign ++ pointed (count - 1 - k) n
        else sign ++ Nat.repr (n * Nat.pow 10 (k + 1 - count)) ++ ".0"
      else sign ++ pointed (count - 1 + (-k).toNat) n

end GlobalQcqp.Decimal
