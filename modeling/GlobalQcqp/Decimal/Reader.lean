import GlobalQcqp.Text.Numeral
/-!
# Reading numbers

Integer and decimal literals as they appear in option values: blanks around them are ignored, single
underscores may stand between digits, and the digits may be those of any script.
-/

namespace GlobalQcqp.Decimal

def isBlank (c : Char) : Bool :=
  c == ' ' || c == '\t' || c == '\n' || c == '\r' || c == '\x0b' || c == '\x0c'

def trim (cs : List Char) : List Char :=
  ((cs.dropWhile isBlank).reverse.dropWhile isBlank).reverse

/-- Digits with single underscores between them. -/
def digits? : List Char → Option (List Char)
  | [] => none
  | [c] => if c.isDigit then some [c] else none
  | c :: '_' :: rest => if c.isDigit then (digits? rest).map (c :: ·) else none
  | c :: rest => if c.isDigit then (digits? rest).map (c :: ·) else none

def natOf (ds : List Char) : Nat :=
  ds.foldl (fun n c ↦ 10 * n + (c.toNat - '0'.toNat)) 0

/-- Splits off a sign; true is a minus. -/
def sign : List Char → Bool × List Char
  | '-' :: rest => (true, rest)
  | '+' :: rest => (false, rest)
  | cs => (false, cs)

/-- An integer with more digits is not read. -/
def maxDigits : Nat := 4300

def readInt? (s : String) : Option Int := do
  let (negative, cs) := sign (trim (← Text.plainNumeral? s.toList))
  let ds ← digits? cs
  if maxDigits < ds.length then none
  else some (if negative then -(natOf ds : Int) else natOf ds)

/-- The digits before or after the point, of which there may be none. -/
private def part? (cs : List Char) : Option (List Char) :=
  if cs.isEmpty then some [] else digits? cs

/-- The number `m * 10 ^ k`. Far outside the range of machine numbers it need not be worked out. -/
def scaled (m : Nat) (k : Int) : Float :=
  let size : Int := (Nat.repr m).length + k
  if m == 0 || size < -400 then 0.0
  else if 400 < size then 1.0 / 0.0
  else Float.ofScientific m (decide (k < 0)) k.natAbs

private def magnitude? (cs : List Char) : Option Float :=
  let isMark (c : Char) : Bool := c == 'e' || c == 'E'
  let mantissa := cs.takeWhile fun c ↦ !isMark c
  let tail := cs.dropWhile fun c ↦ !isMark c
  let whole := mantissa.takeWhile (· != '.')
  let fraction := (mantissa.dropWhile (· != '.')).drop 1
  match part? whole, part? fraction with
  | some w, some f =>
    if w.isEmpty && f.isEmpty then none
    else
      let exponent? : Option Int :=
        match tail with
        | [] => some 0
        | _ :: rest =>
          let (negative, ds) := sign rest
          (digits? ds).map fun ds ↦ if negative then -(natOf ds : Int) else natOf ds
      exponent?.map fun e ↦ scaled (natOf (w ++ f)) (e - f.length)
  | _, _ => none

def readFloat? (s : String) : Option Float := do
  let (negative, cs) := sign (trim (← Text.plainNumeral? s.toList))
  let word := String.ofList (cs.map Char.toLower)
  let value? :=
    if word == "inf" || word == "infinity" then some (1.0 / 0.0)
    else if word == "nan" then some (0.0 / 0.0)
    else magnitude? cs
  value?.map fun x ↦ if negative then -x else x

end GlobalQcqp.Decimal
