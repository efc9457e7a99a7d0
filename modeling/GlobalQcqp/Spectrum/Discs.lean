import GlobalQcqp.Spectrum
import GlobalQcqp.Tensor
/-!
# Discs of a matrix of any shape

The bound from the discs asks only for a diagonal and for rows.  The two are matched like tensors,
so a matrix of one row or one diagonal entry has a bound although it is not square.
-/

namespace GlobalQcqp.Tensor

variable {α : Type} [Scalar α]

def diagonal (rows columns : Nat) (entries : Array α) : Array α :=
  ((Array.range (min rows columns)).map fun i ↦ entries[i * columns + i]?).reduceOption

def absoluteSums (rows columns : Nat) (entries : Array α) : Array α :=
  (Array.range rows).map fun i ↦
    (piece columns i entries).foldl (fun sum a ↦ sum + Scalar.abs a) 0

def discBound (t : Tensor α) : Except Misfit α := do
  match t.shape with
  | [n, m] =>
    let centres := ofArray (diagonal n m t.entries)
    let radii ← zipWith (· - ·) (ofArray (absoluteSums n m t.entries)) (centres.map Scalar.abs)
    match (← zipWith (· - ·) centres radii).entries.toList with
    | [] => .error .content
    | d :: ds => return ds.foldl Scalar.lesser d
  | [_] => .error .dimension
  | _ => .error .content

end GlobalQcqp.Tensor
