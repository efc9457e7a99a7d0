import GlobalQcqp.Setting.Entries
/-!
# Reading settings

Settings are written as JSON text.  A number without a point or an exponent is an integer, and every
other one is real, whatever its value.  A step of the reader takes what it reads off the front of
the text and leaves the rest; its fuel bounds the steps below it.
-/

namespace GlobalQcqp.Setting

private def skipBlanks (cs : List Char) : List Char :=
  cs.dropWhile fun c ↦ c == ' ' || c == '\t' || c == '\n' || c == '\r'

private def hexValue? (c : Char) : Option Nat :=
  if c.isDigit then some (c.toNat - '0'.toNat)
  else if 'a' ≤ c ∧ c ≤ 'f' then some (c.toNat - 'a'.toNat + 10)
  else if 'A' ≤ c ∧ c ≤ 'F' then some (c.toNat - 'A'.toNat + 10)
  else Option.none

private def hexUnit : List Char → Option (Nat × List Char)
  | a :: b :: c :: d :: rest => do
    let digits ← [a, b, c, d].mapM hexValue?
    return (digits.foldl (fun n d ↦ 16 * n + d) 0, rest)
  | _ => Option.none

/-- A character by its number. One above `0xffff` is given in two halves. -/
private def numbered (cs : List Char) : Option (Char × List Char) := do
  let (high, rest) ← hexUnit cs
  match rest with
  | '\\' :: 'u' :: more =>
    let (low, after) ← hexUnit more
    if 0xd800 ≤ high ∧ high < 0xdc00 ∧ 0xdc00 ≤ low ∧ low < 0xe000 then
      return (Char.ofNat (0x10000 + (high - 0xd800) * 0x400 + (low - 0xdc00)), after)
    else return (Char.ofNat high, rest)
  | _ => return (Char.ofNat high, rest)

private def escaped : List Char → Option (Char × List Char)
  | 'u' :: rest => numbered rest
  | 'b' :: rest => some ('\x08', rest)
  | 'f' :: rest => some ('\x0c', rest)
  | 'n' :: rest => some ('\n', rest)
  | 'r' :: rest => some ('\r', rest)
  | 't' :: rest => some ('\t', rest)
  | c :: rest => some (c, rest)
  | [] => Option.none

/-- The rest of a text up to its closing quote. -/
private def quotedRest : Nat → List Char → List Char → Option (String × List Char)
  | 0, _, _ | _, _, [] => Option.none
  | _, read, '"' :: rest => some (String.ofList read.reverse, rest)
  | fuel + 1, read, '\\' :: rest => do
    let (c, rest) ← escaped rest
    quotedRest fuel (c :: read) rest
  | fuel + 1, read, c :: rest => quotedRest fuel (c :: read) rest

private def atom (cs : List Char) : Option (Setting × List Char) := do
  let isPart (c : Char) : Bool := c.isAlphanum || c == '+' || c == '-' || c == '.'
  let word := String.ofList (cs.takeWhile isPart)
  let value ← match word with
    | "null" => some Setting.none
    | "true" => some (bool true)
    | "false" => some (bool false)
    | _ =>
      if word.contains '.' || word.contains 'e' || word.contains 'E' then
        (Decimal.readFloat? word).map real
      else (Decimal.readInt? word).map int
  return (value, cs.dropWhile isPart)

/-- The entries with one value for each name, the last that is given. -/
private def latest (entries : List (String × Setting)) : List (String × Setting) :=
  entries.foldl (fun named (name, v) ↦ setEntry name v named) []

mutual

private def value : Nat → List Char → Option (Setting × List Char)
  | 0, _ => Option.none
  | fuel + 1, cs =>
    match skipBlanks cs with
    | '"' :: rest => (quotedRest fuel [] rest).map fun (s, rest) ↦ (text s, rest)
    | '[' :: rest =>
      match skipBlanks rest with
      | ']' :: rest => some (list [], rest)
      | _ => (itemsRest fuel rest).map fun (items, rest) ↦ (list items, rest)
    | '\x7b' :: rest =>
      match skipBlanks rest with
      | '\x7d' :: rest => some (fields [], rest)
      | _ => (entriesRest fuel rest).map fun (entries, rest) ↦ (fields (latest entries), rest)
    | cs => atom cs

private def itemsRest : Nat → List Char → Option (List Setting × List Char)
  | 0, _ => Option.none
  | fuel + 1, cs =>
    match value fuel cs with
    | Option.none => Option.none
    | some (item, rest) =>
      match skipBlanks rest with
      | ',' :: rest => (itemsRest fuel rest).map fun (items, rest) ↦ (item :: items, rest)
      | ']' :: rest => some ([item], rest)
      | _ => Option.none

private def entriesRest : Nat → List Char → Option (List (String × Setting) × List Char)
  | 0, _ => Option.none
  | fuel + 1, cs =>
    match skipBlanks cs with
    | '"' :: rest =>
      match quotedRest fuel [] rest with
      | Option.none => Option.none
      | some (name, rest) =>
        match skipBlanks rest with
        | ':' :: rest =>
          match value fuel rest with
          | Option.none => Option.none
          | some (v, rest) =>
            match skipBlanks rest with
            | ',' :: rest =>
              (entriesRest fuel rest).map fun (entries, rest) ↦ ((name, v) :: entries, rest)
            | '\x7d' :: rest => some ([(name, v)], rest)
            | _ => Option.none
        | _ => Option.none
    | _ => Option.none

end

def ofText? (s : String) : Option Setting :=
  match value (2 * s.length + 2) s.toList with
  | some (v, rest) => if (skipBlanks rest).isEmpty then some v else Option.none
  | Option.none => Option.none

/-! ## Numbers without digits -/

/-- The numbers that have no digits are given as words. -/
def ofWord (s : String) : Setting :=
  match s with
  | "inf" => real (1.0 / 0.0)
  | "-inf" => real (-1.0 / 0.0)
  | "nan" => real (0.0 / 0.0)
  | _ => text s

mutual

/-- The value with its words for numbers taken as numbers. -/
def worded : Setting → Setting
  | text s => ofWord s
  | list items => list (allWorded items)
  | fields entries => fields (entriesWorded entries)
  | v => v

def allWorded : List Setting → List Setting
  | [] => []
  | item :: items => worded item :: allWorded items

def entriesWorded : List (String × Setting) → List (String × Setting)
  | [] => []
  | (name, v) :: entries => (name, worded v) :: entriesWorded entries

end

def kindName : Setting → String
  | none => "NoneType"
  | bool _ => "bool"
  | int _ => "int"
  | real _ => "float"
  | text _ => "str"
  | list _ => "list"
  | fields _ => "dict"

end GlobalQcqp.Setting
