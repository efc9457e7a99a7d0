import GlobalQcqp.Interval
import GlobalQcqp.Setting.Entries
import GlobalQcqp.Tensor.Place
/-!
# Reading tensors

Numeric data arrives as nested lists.  It has a shape when the lists at each depth have one length;
its entries are then read row by row.
-/

namespace GlobalQcqp

namespace Setting

mutual

/-- The shape of nested lists, none if the lists at some depth differ in length. -/
def shape? : Setting → Option (List Nat)
  | list items =>
    match shapes? items with
    | Option.none => Option.none
    | some [] => some [0]
    | some (s :: rest) => if rest.all (· == s) then some (items.length :: s) else Option.none
  | _ => some []

def shapes? : List Setting → Option (List (List Nat))
  | [] => some []
  | item :: items =>
    match shape? item, shapes? items with
    | some s, some rest => some (s :: rest)
    | _, _ => Option.none

end

mutual

/-- What stands in nested lists, row by row. -/
def leaves : Setting → List Setting
  | list items => allLeaves items
  | v => [v]

def allLeaves : List Setting → List Setting
  | [] => []
  | item :: items => leaves item ++ allLeaves items

end

/-- The most dimensions that data may have. -/
def maxDimensions : Nat := 64

/-- Reads nested lists whose entries are read one by one. -/
def toTensor {α : Type} (read : Setting → Except Misfit α) (v : Setting) :
    Except Misfit (Tensor α) := do
  match v.shape? with
  | Option.none => .error .content
  | some shape =>
    if maxDimensions < shape.length then .error .content
    return ⟨shape, (← v.leaves.mapM read).toArray⟩

/-- A numeric entry; a missing one is undefined. -/
def toEntry : Setting → Except Misfit Float
  | none => .ok (0.0 / 0.0)
  | v => v.toFloat

/-- The range of integers that can be positions. -/
def positionLimit : Nat :=
  Nat.pow 2 63

def toPosition (v : Setting) : Except Misfit Int := do
  let k ← v.toInt
  if -positionLimit ≤ k ∧ k < positionLimit then return k else .error .overflow

/-- An entry that is true unless it is blank. -/
def toFlag (v : Setting) : Except Misfit Bool :=
  .ok !v.isBlank

/-- A number that is combined with other numbers. -/
def toOperandEntry : Setting → Except Misfit Float
  | none | fields _ => .error .kind
  | text _ => .error .operand
  | v => v.toFloat

/-- Reads what is to be combined with numbers entry by entry. Text is no number here, whatever it
says. -/
def toOperand (v : Setting) : Except Misfit (Tensor Float) :=
  if v.leaves.any fun leaf ↦ leaf.isNone || leaf matches .fields _ then
    if v.shape?.isNone then .error .content else .error .kind
  else toTensor toOperandEntry v

/-- Reads nested lists of numbers. -/
def toNumbers : Setting → Except Misfit (Tensor Float) :=
  toTensor toEntry

def item (v : Setting) (i : Nat) : Except Misfit Setting :=
  match v with
  | fields _ => .error .name
  | v => do (← v.sequence)[i]?.elim (.error .position) .ok

def side (lower upper : Setting) (i : Nat) : Except Misfit (Interval Float) := do
  return ⟨← (← lower.item i).toFloat, ← (← upper.item i).toFloat⟩

/-- What an index picks. Truth values pick everything or nothing. -/
def toPlace : Setting → Except Misfit Place
  | int k => .ok (.one k)
  | none | bool true => .ok .whole
  | bool false => .ok (.several [])
  | list items => do
    return .several (← items.mapM fun item ↦
      match item with
      | int k => .ok k
      | _ => .error .position)
  | _ => .error .position

def toPositions (v : Setting) : Except Misfit (List Int) := do
  let t ← toTensor toPosition (list (← v.sequence))
  match t.shape with
  | [_] => return t.entries.toList
  | _ => .error .kind

end Setting

end GlobalQcqp
