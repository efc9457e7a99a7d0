import GlobalQcqp.Fault
import GlobalQcqp.Node
import GlobalQcqp.Notice
import GlobalQcqp.Problem
import GlobalQcqp.Progress
import GlobalQcqp.Quadratic.Build
/-!
# Bound tightening

Tightens the box of a node before its relaxation is built.  A propagator only cuts off points that
are infeasible or no better than the incumbent, and may find that no other point is left.
-/

namespace GlobalQcqp

/-- A node after propagation, and whether a useful point may still be in its box. -/
structure Propagated (α β : Type) (k : Nat) (σ : Type) where
  node : Node α β k
  isOpen : Bool
  notices : List (Notice β)
  solver : σ

/-- A propagator for one problem; it sees the progress of the search and may call a solver. -/
abbrev Propagator (α β : Type) (k : Nat) (π σ : Type) :=
  Node α β k → Progress β π → σ → Except (Fault α) (Propagated α β k σ)

namespace Propagator

variable {α β π σ : Type} {k : Nat}

def none : Propagator α β k π σ :=
  fun node _ s ↦ .ok ⟨node, true, [], s⟩

def sequence : List (Propagator α β k π σ) → Propagator α β k π σ
  | [] => none
  | first :: rest => fun node progress s ↦ do
    let r ← first node progress s
    if r.isOpen then
      let r' ← sequence rest r.node progress r.solver
      return { r' with notices := r.notices ++ r'.notices }
    else return r

end Propagator

section

variable {α β : Type} [Scalar α] [Scalar β] [Extended α β]

/-- Clamps the variable at a place between the bound the node inherited and the incumbent value,
unless they cross. -/
def Node.clampAt {k : Nat} (node : Node α β k) (place : Option Int) (incumbentValue : β) :
    Except (Fault α) (Node α β k) :=
  match place with
  | none => .ok node
  | some place =>
    match position? k place with
    | none => .error (.misfit .position)
    | some i =>
      let lo := Scalar.max (ofNumber node.box.lower[i]) node.priority
      let hi := Scalar.min (ofNumber node.box.upper[i]) incumbentValue
      .ok (if lo ≤ hi then { node with box := node.box.setSide i ⟨toNumber lo, toNumber hi⟩ }
        else node)

namespace Problem

def tightenEpigraph (p : Problem α) (node : Node α β p.stored) (incumbentValue : β) :
    Except (Fault α) (Node α β p.stored) :=
  node.clampAt p.epigraph incumbentValue

/-- The objective cut that holds at points no worse than the incumbent, if there is one. -/
def objectiveCut? {π : Type} {n : Nat} (objective : Quadratic α n) (progress : Progress β π) :
    Except (Fault α) (List (Quadratic α n)) :=
  if progress.hasIncumbent then do
    return [← objective.subConst? (toNumber progress.incumbentValue)]
  else .ok []

end Problem

end

end GlobalQcqp
