import GlobalQcqp.Problem
/-!
# Problems with another number of stored variables

A node may store more or fewer variables than its problem.  As long as every optimized variable is
among them, the problem can be read over the variables of the node: those it does not know are
auxiliary.
-/

namespace GlobalQcqp.Problem

variable {α : Type} [Scalar α]

/-- The problem over `k` stored variables, if they hold every optimized one. -/
def resize? (p : Problem α) (k : Nat) : Option (Problem α) := do
  let places ← p.places.mapM fun s ↦ if h : s.val < k then some (⟨s.val, h⟩ : Fin k) else none
  let lower : Vector α k := Vector.ofFn fun i ↦
    if h : i.val < p.stored then p.box.lower[i.val] else 0
  let upper : Vector α k := Vector.ofFn fun i ↦
    if h : i.val < p.stored then p.box.upper[i.val] else 0
  let branchable := Vector.ofFn fun i : Fin k ↦
    if h : i.val < p.stored then p.branchable[i.val] else false
  if hbox : ∀ i : Fin k, ¬ upper[i] < lower[i] then
    if hplaces : ∀ i j : Fin p.size, places[i] = places[j] → i = j then
      some {
        stored := k
        size := p.size
        objective := p.objective
        constraints := p.constraints
        equalities := p.equalities
        box := ⟨lower, upper⟩
        places := places
        branchable := branchable
        absTol := p.absTol
        relTol := p.relTol
        epigraph := p.epigraph
        not_crossed := hbox
        places_injective := hplaces
        absTol_nonneg := p.absTol_nonneg
        relTol_nonneg := p.relTol_nonneg }
    else none
  else none

end GlobalQcqp.Problem
