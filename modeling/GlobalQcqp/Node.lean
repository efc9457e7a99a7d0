import GlobalQcqp.Box
import GlobalQcqp.Fault
import GlobalQcqp.Solver.Status
/-!
# Nodes

A node is one sub-box of the search with the bounds known for it.  Its `priority` is inherited from
the node it was split from; `lowerBound` is its own, once its relaxation has been solved.  The
relaxed point is kept as a warm start; it may come from outside, so its length is free.
-/

namespace GlobalQcqp

structure Node (α β : Type) (k : Nat) where
  priority : β
  id : Int
  depth : Int
  box : Box α k
  lowerBound : β
  relaxed : Option (Array α)
  status : LowerStatus

namespace Node

variable {α β : Type} [Scalar α] [Scalar β] [Extended α β] {k : Nat}

/-- A node whose relaxation has not been solved. -/
def fresh (priority : β) (id depth : Int) (box : Box α k) (relaxed : Option (Array α)) :
    Node α β k where
  priority := priority
  id := id
  depth := depth
  box := box
  lowerBound := negInf
  relaxed := relaxed
  status := .unsolved

def checked (node : Node α β k) : Except NodeError (Node α β k) :=
  if node.box.isCrossed then .error .crossed else .ok node

def bound (node : Node α β k) : β :=
  Scalar.max node.priority node.lowerBound

def tighten? (node : Node α β k) (b : Box α k) : Option (Node α β k) :=
  let box := node.box.inter b
  if box.isCrossed then none else some { node with box := box }

def markInfeasible (node : Node α β k) : Node α β k :=
  { node with status := .infeasible, lowerBound := posInf }

/-- Splits the box at `value` on side `i`. The halves inherit the bound and the warm start. -/
def split (node : Node α β k) (i : Fin k) (value : α) (id : Int) : Node α β k × Node α β k :=
  (fresh node.bound id (node.depth + 1)
      { node.box with upper := node.box.upper.set i value i.isLt } node.relaxed,
    fresh node.bound (id + 1) (node.depth + 1)
      { node.box with lower := node.box.lower.set i value i.isLt } node.relaxed)

/-- Splits the box where both halves are boxes again. -/
def split? (node : Node α β k) (i : Fin k) (value : α) (id : Int) :
    Except NodeError (Node α β k × Node α β k) := do
  let (left, right) := node.split i value id
  return (← left.checked, ← right.checked)

/-! ## Order -/

structure Comparison where
  lt : Bool
  le : Bool
  gt : Bool
  ge : Bool
  eq : Bool
deriving DecidableEq, Repr

def compare {l : Nat} (a : Node α β k) (b : Node α β l) : Comparison :=
  if a.priority == b.priority then
    ⟨a.id < b.id, a.id ≤ b.id, b.id < a.id, b.id ≤ a.id, a.id == b.id⟩
  else
    ⟨decide (a.priority < b.priority), decide (a.priority ≤ b.priority),
      decide (b.priority < a.priority), decide (b.priority ≤ a.priority), false⟩

end Node

end GlobalQcqp
