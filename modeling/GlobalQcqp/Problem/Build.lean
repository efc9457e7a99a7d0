import GlobalQcqp.Problem
import GlobalQcqp.Quadratic.Build
/-!
# Problems from data

`Problem.build` checks the rules of a problem in a fixed order and names the first one that fails.
`Problem.withEpigraph` checks those that a new epigraph range can break.
-/

namespace GlobalQcqp

/-- What a problem is made from. A part that cannot be read is refused when its turn comes. -/
structure ProblemData (α : Type) where
  objective : SizedQuadratic α
  constraints : List (SizedQuadratic α)
  equalities : List (SizedQuadratic α)
  lower : Option (Except Misfit (Array α))
  upper : Option (Except Misfit (Array α))
  branchMask : Option (Except Misfit (Array Bool))
  places : Option (Except Misfit (List Int))
  absTol : Except Misfit α
  relTol : Except Misfit α
  epigraph : Option Int

namespace Problem

variable {α : Type} [Scalar α]

private def part {ε : Type} (x : Except Misfit ε) : Except (Fault α) ε :=
  x.mapError .misfit

/-- A part of the data, or what stands for one that is not given. -/
private def partOr {ε : Type} (default : ε) (x : Option (Except Misfit ε)) : Except (Fault α) ε :=
  x.elim (.ok default) part

private def positionsOf (n : Nat) (test : Fin n → Bool) : List Nat :=
  ((List.finRange n).filter test).map (·.val)

private def ofSize (role : Role) (n : Nat) (f : SizedQuadratic α) :
    Except (Fault α) (Quadratic α n) :=
  if h : f.1 = n then .ok (h ▸ f.2) else .error (.arity role f.1 n)

private def place (stored : Nat) (k : Int) : Option (Fin stored) :=
  if h : 0 ≤ k ∧ k.toNat < stored then some ⟨k.toNat, h.2⟩ else none

def build (d : ProblemData α) : Except (Fault α) (Problem α) := do
  let (some lowerData, some upperData) := (d.lower, d.upper) | .error .noBox
  let lower ← part lowerData
  let upper ← part upperData
  let stored := lower.size
  if hsize : upper.size = stored then
    let box : Box α stored := ⟨⟨lower, rfl⟩, ⟨upper, hsize⟩⟩
    if !(lower.all Scalar.isFinite && upper.all Scalar.isFinite) then .error .infiniteBounds
    else if hbox : ∀ i : Fin stored, ¬ box.upper[i] < box.lower[i] then
      let given ← partOr ((List.range stored).map Int.ofNat) d.places
      let size := given.length
      if !decide given.Nodup then .error .repeatedVariables
      else
        match (⟨given.toArray, by simp [size]⟩ : Vector Int size).mapM (place stored) with
        | none => .error (.variablesOutside stored)
        | some places =>
          if hvars : ∀ i j : Fin size, places[i] = places[j] → i = j then
            let objective ← ofSize .objective size d.objective
            let constraints ← d.constraints.mapM (ofSize .constraint size)
            let equalities ← d.equalities.mapM (ofSize .equality size)
            let mask ← partOr (Array.ofFn fun s : Fin stored ↦ places.contains s) d.branchMask
            if hmask : mask.size = stored then
              let absTol ← part d.absTol
              if habs : ¬ absTol < 0 then
                let relTol ← part d.relTol
                if hrel : ¬ relTol < 0 then
                  .ok {
                    stored, size, objective, constraints, equalities, box, places, absTol, relTol
                    branchable := ⟨mask, hmask⟩
                    epigraph := d.epigraph
                    not_crossed := hbox
                    places_injective := hvars
                    absTol_nonneg := habs
                    relTol_nonneg := hrel }
                else .error .negativeTolerance
              else .error .negativeTolerance
            else .error (.maskLength stored mask.size)
          else .error .repeatedVariables
    else .error (.crossedBounds (positionsOf stored fun i ↦ (box.side i).isEmpty))
  else .error (.boundLengths lower.size upper.size)

/-- Adds an epigraph variable that starts at the range of the objective, unless there is one
already. -/
def withEpigraph (p : Problem α) : Except (Fault α) (Problem α) :=
  if p.epigraph.isSome then .ok p
  else
    let range := p.objectiveRange
    if !(Scalar.isFinite range.lo && Scalar.isFinite range.hi) then .error .infiniteBounds
    else if h : ¬ range.hi < range.lo then .ok (p.addEpigraph range h)
    else .error (.crossedBounds [p.stored])

/-! ## Points of any shape -/

def restrictBox? {k : Nat} (p : Problem α) (b : Box α k) : Option (Box α p.size) := do
  return ⟨← p.restrict? b.lower.toArray, ← p.restrict? b.upper.toArray⟩

/-- The parts of a tensor at the optimized variables. -/
def restrictRows (p : Problem α) (t : Tensor α) : Except Misfit (Tensor α) :=
  t.rows (p.places.toList.map fun s ↦ (s.val : Int))

def value? (p : Problem α) (x : Tensor α) : Except Misfit α :=
  p.objective.number? x

def violation? (p : Problem α) (x : Tensor α) : Except Misfit α := do
  let worst ← p.constraints.foldlM (fun w g ↦ return Scalar.max w (← g.number? x)) 0
  p.equalities.foldlM (fun w h ↦ return Scalar.max w (Scalar.abs (← h.number? x))) worst

/-- Some entry is less than the one it is compared with. -/
private def anyLess (a b : Tensor α) : Except Misfit Bool := do
  return (← Tensor.zipWith (fun x y ↦ decide (x < y)) a b).entries.contains true

/-- Feasibility of a tensor. It is first compared with the box, to which the tolerance is applied
entry by entry; only a single tolerance is compared with the violation. -/
def isFeasible? (p : Problem α) (tol x : Tensor α) : Except Misfit Bool := do
  let lower ← Tensor.zipWith (· - ·) (.ofVector (p.restrict p.box.lower)) tol
  if ← anyLess x lower then return false
  let upper ← Tensor.zipWith (· + ·) (.ofVector (p.restrict p.box.upper)) tol
  if ← anyLess upper x then return false
  let violation ← p.violation? x
  match tol.shape, tol.only? with
  | [], some tol => return decide (violation ≤ tol)
  | _, _ => .error .kind

end Problem

end GlobalQcqp
