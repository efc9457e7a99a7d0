import GlobalQcqp.Tensor
/-!
# Places in tensors

An index picks one part of a tensor along its first dimension, or several parts, or all of it.  What
it picks can be taken out or replaced.
-/

namespace GlobalQcqp

inductive Place where
  /-- One part, counted from the end when negative. -/
  | one (k : Int)
  /-- Several parts, one after the other. -/
  | several (ks : List Int)
  /-- Everything, as the only part of one more dimension. -/
  | whole
deriving DecidableEq, Repr

namespace Tensor

variable {α : Type}

def pick (t : Tensor α) : Place → Except Misfit (Tensor α)
  | .one k => t.row k
  | .several ks => t.rows ks
  | .whole => .ok ⟨1 :: t.shape, t.entries⟩

def replace (t : Tensor α) (place : Place) (v : Tensor α) : Except Misfit (Tensor α) := do
  let old ← t.pick place
  match place with
  | .one k => t.setRow k v
  | .several ks =>
    match v.fill? old.shape with
    | none => .error .content
    | some new => ks.zipIdx.foldlM (fun t (k, i) ↦ do t.setRow k (← new.row i)) t
  | .whole => (v.fill? old.shape).elim (.error .content) fun new ↦ .ok ⟨t.shape, new.entries⟩

end Tensor

end GlobalQcqp
