import GlobalQcqp.Setting
/-!
# The order of settings

Numbers of all kinds compare by their exact values, text by code points, and lists by their first
items that differ.  Values of other kinds are equal or not, but neither of two different ones is
smaller.
-/

namespace GlobalQcqp.Setting

def numeric? : Setting → Option (Int ⊕ Float)
  | bool b => some (.inl (if b then 1 else 0))
  | int n => some (.inl n)
  | real x => some (.inr x)
  | _ => Option.none

/-- How an integer compares with the exact value of a machine number. -/
def compareReal (n : Int) (x : Float) : Option Ordering :=
  match Binary.ofFloat x with
  | .undefined => Option.none
  | .infinite negative => some (if negative then .gt else .lt)
  | .finite negative m e =>
    let v := Quotient.ofBinary m e
    let signed : Int := if negative then -v.num else v.num
    some (compare (n * v.den) signed)

/-- How two numbers compare; an undefined one does not. -/
def compareNumbers : Int ⊕ Float → Int ⊕ Float → Option Ordering
  | .inl m, .inl n => some (compare m n)
  | .inl m, .inr y => compareReal m y
  | .inr x, .inl n => (compareReal n x).map Ordering.swap
  | .inr x, .inr y =>
    if x < y then some .lt else if y < x then some .gt else if x == y then some .eq else Option.none

def compareNumeric? (a b : Setting) : Option (Option Ordering) := do
  return compareNumbers (← a.numeric?) (← b.numeric?)

mutual

def equals : Setting → Setting → Bool
  | none, none => true
  | text s, text t => s == t
  | list xs, list ys => allEqual xs ys
  | fields xs, fields ys => entriesEqual xs ys
  | a, b => a.compareNumeric? b == some (some .eq)

def allEqual : List Setting → List Setting → Bool
  | [], [] => true
  | x :: xs, y :: ys => equals x y && allEqual xs ys
  | _, _ => false

def entriesEqual : List (String × Setting) → List (String × Setting) → Bool
  | [], [] => true
  | (name, x) :: xs, (other, y) :: ys => name == other && equals x y && entriesEqual xs ys
  | _, _ => false

end

mutual

def isLess : Setting → Setting → Except Misfit Bool
  | text s, text t => .ok (decide (s < t))
  | list xs, list ys => isListLess xs ys
  | a, b =>
    match a.compareNumeric? b with
    | some order => .ok (order == some .lt)
    | Option.none => .error .kind

def isListLess : List Setting → List Setting → Except Misfit Bool
  | [], ys => .ok !ys.isEmpty
  | _ :: _, [] => .ok false
  | x :: xs, y :: ys => if equals x y then isListLess xs ys else isLess x y

end

/-- The first of two values unless the second is larger. -/
def larger (a b : Setting) : Except Misfit Setting := do
  return if ← isLess a b then b else a

def succ : Setting → Except Misfit Setting
  | bool b => .ok (int (if b then 2 else 1))
  | int n => .ok (int (n + 1))
  | real x => .ok (real (x + 1.0))
  | _ => .error .kind

end GlobalQcqp.Setting
