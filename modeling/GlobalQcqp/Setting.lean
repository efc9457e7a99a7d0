import GlobalQcqp.Decimal.Reader
import GlobalQcqp.Decimal.Shortest
import GlobalQcqp.Fault
import GlobalQcqp.Text.Quoted
/-!
# Settings

The value of an option before its kind is known, with its text and its conversions to numbers.  A
truth value counts as one or zero.
-/

namespace GlobalQcqp

inductive Setting where
  | none
  | bool (b : Bool)
  | int (n : Int)
  | real (x : Float)
  | text (s : String)
  | list (items : List Setting)
  | fields (entries : List (String × Setting))
deriving Inhabited

namespace Setting

mutual

/-- The value as it appears inside other values. -/
def render : Setting → String
  | none => "None"
  | bool b => if b then "True" else "False"
  | int n => toString n
  | real x => Decimal.shortest x
  | text s => Text.quoted s
  | list items => "[" ++ ", ".intercalate (renderAll items) ++ "]"
  | fields entries => "\x7b" ++ ", ".intercalate (renderEntries entries) ++ "\x7d"

def renderAll : List Setting → List String
  | [] => []
  | item :: items => render item :: renderAll items

def renderEntries : List (String × Setting) → List String
  | [] => []
  | (name, value) :: entries => (Text.quoted name ++ ": " ++ render value) :: renderEntries entries

end

/-- The value as it appears on its own: text is not quoted. -/
def plain : Setting → String
  | text s => s
  | v => v.render

def isNone : Setting → Bool
  | none => true
  | _ => false

/-- The number a value is compared as. -/
def number? : Setting → Option Float
  | bool b => some (if b then 1.0 else 0.0)
  | int n => some (Float.ofInt n)
  | real x => some x
  | _ => Option.none

def isBlank : Setting → Bool
  | none => true
  | bool b => !b
  | int n => n == 0
  | real x => x == 0.0
  | text s => s.isEmpty
  | list items => items.isEmpty
  | fields entries => entries.isEmpty

/-- The integer a number stands for when its fraction is dropped. -/
def truncate (x : Float) : Except Misfit Int :=
  match Binary.ofFloat x with
  | .undefined => .error .content
  | .infinite _ => .error .overflow
  | .finite negative m e =>
    let v := Quotient.ofBinary m e
    .ok (if negative then -(v.num / v.den : Nat) else (v.num / v.den : Nat))

def toWhole : Setting → Except Misfit Int
  | bool b => .ok (if b then 1 else 0)
  | int n => .ok n
  | _ => .error .kind

def toInt : Setting → Except Misfit Int
  | bool b => .ok (if b then 1 else 0)
  | int n => .ok n
  | real x => truncate x
  | text s => (Decimal.readInt? s).elim (.error .content) .ok
  | _ => .error .kind

def toFloat : Setting → Except Misfit Float
  | bool b => .ok (if b then 1.0 else 0.0)
  | int n => if (Float.ofInt n).isFinite then .ok (Float.ofInt n) else .error .overflow
  | real x => .ok x
  | text s => (Decimal.readFloat? s).elim (.error .content) .ok
  | _ => .error .kind

end Setting

end GlobalQcqp
