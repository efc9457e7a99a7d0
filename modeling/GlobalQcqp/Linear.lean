import GlobalQcqp.Scalar
/-!
# Vectors and square matrices

Sums run over the indices in increasing order, starting from zero.
-/

namespace GlobalQcqp

/-- The rows of a square matrix. -/
abbrev SquareMatrix (α : Type) (n : Nat) :=
  Vector (Vector α n) n

/-- An index that its type keeps below the size asks for no proof. -/
instance vectorEntry {ε : Type} {n : Nat} : GetElem (Vector ε n) (Fin n) ε fun _ _ ↦ True where
  getElem v i _ := v.get i

@[simp]
theorem getElem_fin {ε : Type} {n : Nat} (v : Vector ε n) (i : Fin n) : v[i] = v[i.val] := rfl

variable {α : Type} [Scalar α] {n : Nat}

def total (f : Fin n → α) : α :=
  (List.finRange n).foldl (fun acc i ↦ acc + f i) 0

def dot (x y : Vector α n) : α :=
  total fun i : Fin n ↦ x[i] * y[i]

def mulVec (M : SquareMatrix α n) (x : Vector α n) : Vector α n :=
  Vector.ofFn fun i ↦ dot M[i] x

def axis (i : Fin n) (a : α) : Vector α n :=
  Vector.ofFn fun j ↦ if j = i then a else 0

def zeroMatrix (α : Type) [Scalar α] (n : Nat) : SquareMatrix α n :=
  Vector.ofFn fun _ ↦ Vector.ofFn fun _ ↦ 0

/-- The position of the first largest value; an undefined value counts as largest. -/
def firstLargest? {ι : Type} (value : ι → α) : List ι → Option ι
  | [] => none
  | i :: rest => some (rest.foldl better i)
where
  better (best j : ι) : ι :=
    if Scalar.isUndefined (value best) then best
    else if Scalar.isUndefined (value j) || decide (value best < value j) then j
    else best

/-! ## Sequences of any length

An answer from outside the library is a sequence whose length need not match. A sequence of one
entry stands for that entry at every position.
-/

def fit? {ε : Type} (n : Nat) (xs : Array ε) : Option (Vector ε n) :=
  if h : xs.size = n then some ⟨xs, h⟩
  else if h : xs.size = 1 then some (Vector.replicate n xs[0])
  else none

/-- Position `k`, counted from the end when negative. -/
def position? (n : Nat) (k : Int) : Option (Fin n) :=
  let k' := if k < 0 then k + n else k
  if h : 0 ≤ k' ∧ k'.toNat < n then some ⟨k'.toNat, h.2⟩ else none

end GlobalQcqp
