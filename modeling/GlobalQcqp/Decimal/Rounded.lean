import GlobalQcqp.Decimal.Binary
/-!
# Rounded decimals

Decimal text with a chosen number of places, rounded from the exact binary value with ties to even:
one digit before the point and an exponent, or all digits written out.
-/

namespace GlobalQcqp.Decimal

def padLeft (width : Nat) (fill : Char) (s : String) : String :=
  String.ofList (List.replicate (width - s.length) fill) ++ s

/-- The digits of a natural number with a point before the last `places` of them. -/
def pointed (places n : Nat) : String :=
  let digits := (padLeft (places + 1) '0' (Nat.repr n)).toList
  let whole := String.ofList (digits.take (digits.length - places))
  if places == 0 then whole
  else whole ++ "." ++ String.ofList (digits.drop (digits.length - places))

/-- A sign and at least two digits. -/
def exponentText (k : Int) : String :=
  (if k < 0 then "e-" else "e+") ++ padLeft 2 '0' (Nat.repr k.natAbs)

private def specialText : Binary → Option String
  | .undefined => some "nan"
  | .infinite negative => some (if negative then "-inf" else "inf")
  | .finite .. => none

def scientific (places : Nat) (x : Float) : String :=
  let b := Binary.ofFloat x
  match b with
  | .finite negative m e =>
    let sign := if negative then "-" else ""
    if m == 0 then sign ++ pointed places 0 ++ exponentText 0
    else
      let v := Quotient.ofBinary m e
      let k := v.decimalExponent
      let n := (v.shift (places - k)).round
      if n == Nat.pow 10 (places + 1) then
        sign ++ pointed places (Nat.pow 10 places) ++ exponentText (k + 1)
      else sign ++ pointed places n ++ exponentText k
  | _ => (specialText b).getD ""

def fixed (places : Nat) (x : Float) : String :=
  let b := Binary.ofFloat x
  match b with
  | .finite negative m e =>
    let sign := if negative then "-" else ""
    sign ++ pointed places ((Quotient.ofBinary m e).shift places).round
  | _ => (specialText b).getD ""

/-- Decimal text in which zero has no sign. -/
def unsigned (s : String) : String :=
  let isZero := s.any Char.isDigit && s.toList.all fun c ↦ !c.isDigit || c == '0'
  if s.startsWith "-" && isZero then String.ofList (s.toList.drop 1) else s

end GlobalQcqp.Decimal
