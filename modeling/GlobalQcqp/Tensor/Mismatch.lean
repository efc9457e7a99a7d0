import GlobalQcqp.Tensor
/-!
# Shapes that do not go together

Why two tensors cannot be combined, where the reason is reported and not only refused.
-/

namespace GlobalQcqp

inductive ShapeMismatch where
  /-- Shapes that cannot be stretched to a common one. -/
  | unmatched (shapes : List (List Nat))
  /-- A new content that cannot be stretched to the place it is for. -/
  | unfilled (content place : List Nat)
  /-- The product of two, where the last dimension of the first and the last but one of the second
  are of different lengths. -/
  | unaligned (left right : List Nat)
  /-- A single entry cannot be followed by others. -/
  | noDimension
  /-- Only a vector can be followed by a single entry. -/
  | dimensions (count : Nat)

namespace ShapeMismatch

/-- Lengths in round brackets without blanks, with a comma after a single one. -/
def tightText : List Nat → String
  | [n] => s!"({n},)"
  | ns => "(" ++ ",".intercalate (ns.map Nat.repr) ++ ")"

def message : ShapeMismatch → String
  | unmatched shapes =>
    "operands could not be broadcast together with shapes " ++
      String.join (shapes.map fun s ↦ tightText s ++ " ")
  | unfilled content place =>
    s!"shape mismatch: value array of shape {tightText content} could not be broadcast " ++
      s!"to indexing result of shape {tightText place}"
  | unaligned left right =>
    let i := left.length - 1
    let k := right.length - 2
    s!"shapes {tightText left} and {tightText right} not aligned: " ++
      s!"{left.getD i 1} (dim {i}) != {right.getD k 1} (dim {k})"
  | noDimension => "zero-dimensional arrays cannot be concatenated"
  | dimensions count =>
    "all the input arrays must have same number of dimensions, but the array at index 0 has " ++
      s!"{count} dimension(s) and the array at index 1 has 1 dimension(s)"

end ShapeMismatch

/-- Why there is no starting point. A misfit ends the solve, a mismatch only breaks it down. -/
inductive StartError where
  | misfit (cause : Misfit)
  | mismatch (cause : ShapeMismatch)

namespace Tensor

variable {α : Type}

/-- The vector with one more entry. -/
def push (t : Tensor α) (a : α) : Except ShapeMismatch (Tensor α) :=
  match t.shape with
  | [] => .error .noDimension
  | [n] => .ok ⟨[n + 1], t.entries.push a⟩
  | shape => .error (.dimensions shape.length)

def dropLast (t : Tensor α) : Except Misfit (Tensor α) :=
  match t.shape with
  | [] => .error .position
  | n :: rest => .ok ⟨(n - 1) :: rest, t.entries.extract 0 ((n - 1) * volume rest)⟩

theorem dropLast_ofVector {n : Nat} (v : Vector α (n + 1)) :
    (ofVector v).dropLast = .ok (ofVector v.pop) := by
  simp [dropLast, ofVector, volume]

end Tensor

end GlobalQcqp
