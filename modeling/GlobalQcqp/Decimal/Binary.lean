/-!
# Binary numbers

A machine number is a sign and a natural number times a power of two, or one of the special values.
All decimal text starts from this exact value.
-/

namespace GlobalQcqp

/-- The exact value of a machine number; a finite one is `mantissa * 2 ^ exponent` with its sign. -/
inductive Binary where
  | undefined
  | infinite (negative : Bool)
  | finite (negative : Bool) (mantissa : Nat) (exponent : Int)
deriving Repr

namespace Binary

def ofFloat (x : Float) : Binary :=
  let bits := x.toBits.toNat
  let negative := bits / Nat.pow 2 63 == 1
  let biased : Nat := bits / Nat.pow 2 52 % Nat.pow 2 11
  let fraction : Nat := bits % Nat.pow 2 52
  if biased == Nat.pow 2 11 - 1 then
    if fraction == 0 then infinite negative else undefined
  else if biased == 0 then finite negative fraction (-1074)
  else finite negative (fraction + Nat.pow 2 52) ((biased : Int) - 1075)

end Binary

/-- A positive rational number as numerator and denominator. -/
structure Quotient where
  num : Nat
  den : Nat
deriving Repr

namespace Quotient

def ofBinary (m : Nat) (e : Int) : Quotient :=
  if 0 ≤ e then ⟨m * Nat.pow 2 e.toNat, 1⟩ else ⟨m, Nat.pow 2 (-e).toNat⟩

/-- The product with `10 ^ k`. -/
def shift (v : Quotient) (k : Int) : Quotient :=
  if 0 ≤ k then ⟨v.num * Nat.pow 10 k.toNat, v.den⟩ else ⟨v.num, v.den * Nat.pow 10 (-k).toNat⟩

/-- The nearest natural number, of two equally near ones the even one. -/
def round (v : Quotient) : Nat :=
  let below := v.num / v.den
  let twice := 2 * (v.num % v.den)
  if twice < v.den then below
  else if v.den < twice then below + 1
  else below + below % 2

/-- The exponent `k` with `10 ^ k ≤ v < 10 ^ (k + 1)`. -/
def decimalExponent (v : Quotient) : Int :=
  let digits (n : Nat) : Int := (Nat.repr n).length
  let k := digits v.num - digits v.den
  let scaled := v.shift (-k)
  if scaled.den ≤ scaled.num then k else k - 1

end Quotient

end GlobalQcqp
