import GlobalQcqp.Defaults
import GlobalQcqp.Frozen
import GlobalQcqp.Minimizer
import GlobalQcqp.Notice
import GlobalQcqp.Tensor.Mismatch
/-!
# Convex solves in stages

Solves a convex problem by a minimizer whose answers are not taken on trust.  A point of the main
solve is accepted only after its violation has been measured.  If it is not, phase one minimizes a
slack `s` with `g x ≤ s` for every constraint `g`: a positive least slack refutes the problem, and
any other point that phase one finds is where the main solve is started once more.

Frozen coordinates take no part.  Where all are frozen no minimizer is needed.
-/

namespace GlobalQcqp

structure Staged (α : Type) where
  method : Method
  settings : List (String × Setting)
  /-- A point that violates no constraint by more is accepted. -/
  tol : α

namespace Staged

variable {α β ε σ : Type} [Scalar α] [Scalar β] [Extended α β] {n : Nat}

structure Report (α β : Type) where
  answer : ConvexAnswer α β
  minimum : Option (Minimum α β)
  notices : List (Notice β)

namespace Report

def solved (c : ConvexProblem α n) (primal : PrimalStatus) (x : Vector α n)
    (m : Option (Minimum α β)) : Report α β :=
  ⟨⟨.optimal, primal, ofNumber (c.objective.eval x), some x.toArray⟩, m, []⟩

def refuted (m : Option (Minimum α β)) : Report α β :=
  ⟨⟨.infeasible, .infeasibilityCertificate, posInf, none⟩, m, []⟩

def unknown (termination : Termination) (point : Option (Array α)) (m : Option (Minimum α β))
    (notices : List (Notice β)) : Report α β :=
  ⟨⟨termination, .unknown, posInf, point⟩, m, notices⟩

/-- The minimizer broke down before anything was known. -/
def brokeDown (stage : SolveStage) (message : String) : Report α β :=
  .unknown .numericalError none none [.solveRaised stage message]

end Report

/-! ## The programs of the stages -/

def mainProgram (c : ConvexProblem α n) (b : FrozenBox α n) (start : Vector α b.count) :
    Program α b.count where
  objective := b.function c.objective 1
  conditions := c.constraints.map fun g ↦ ⟨.nonnegative, b.function g (-1)⟩
  ranges := b.sides.map some
  start := start

/-- The last coordinate less a function of the others. -/
def slackLess {k : Nat} (f : Smooth α k) : Smooth α (k + 1) where
  value z := z[Fin.last k] - f.value z.pop
  gradient z := ((f.gradient z.pop).map (- ·)).push 1

def worst (c : ConvexProblem α n) (x : Vector α n) : α :=
  match c.constraints.map (·.eval x) with
  | [] => 0
  | v :: vs => vs.foldl Scalar.max v

/-- The least slack over the free coordinates. The slack is the last variable and has no range. -/
def slackProgram (c : ConvexProblem α n) (b : FrozenBox α n) (start : Vector α b.count) :
    Program α (b.count + 1) where
  objective := ⟨fun z ↦ z[Fin.last b.count], fun _ ↦ axis (Fin.last b.count) 1⟩
  conditions := c.constraints.map fun g ↦ ⟨.nonnegative, slackLess (b.pull g)⟩
  ranges := (b.sides.map some).push none
  start := start.push (worst c (b.full start))

/-- A starting point as it was handed on, with the free coordinates that it stands for. -/
structure Start (α : Type) (m : Nat) where
  raw : Tensor α
  point : Vector α m

def Start.ofVector {m : Nat} (x : Vector α m) : Start α m :=
  ⟨.ofVector x, x⟩

def mainJob (stages : Staged α) (c : ConvexProblem α n) (b : FrozenBox α n)
    (start : Start α b.count) : Job α :=
  ⟨b.count, mainProgram c b start.point, start.raw, stages.method, stages.settings⟩

/-- Phase one always uses the sequential method. -/
def slackJob (stages : Staged α) (c : ConvexProblem α n) (b : FrozenBox α n)
    (start : Start α b.count) : Except ShapeMismatch (Job α) := do
  let raw ← start.raw.push (worst c (b.full start.point))
  return ⟨b.count + 1, slackProgram c b start.point, raw, .sequential, stages.settings⟩

/-! ## Points of any shape -/

/-- The nearest point of the box at the free coordinates. A tensor is matched with the box first. -/
def reduce (b : FrozenBox α n) (x : Tensor α) : Except StartError (Start α b.count) :=
  match x.toVector? n with
  | some x => .ok (.ofVector (b.reduce x))
  | none => do
    let clamped := do
      let raised ← Tensor.zipWith Scalar.greater x (.ofVector b.box.lower)
      Tensor.zipWith Scalar.lesser raised (.ofVector b.box.upper)
    let all ← clamped.mapError fun _ ↦ .mismatch (.unmatched [x.shape, [n], [n]])
    let raw ← (all.rows (b.free.toList.map fun i ↦ (i.val : Int))).mapError .misfit
    match raw.fillVector? b.count with
    | some point => return ⟨raw, point⟩
    | none => .error (.mismatch (.unfilled raw.shape [b.count]))

/-- A point that is to be written to the free coordinates. -/
def written (b : FrozenBox α n) (raw : Except Misfit (Tensor α)) :
    Except (SolveError ε) (Start α b.count) := do
  let raw ← raw.mapError .misfit
  match raw.fillVector? b.count with
  | some point => return ⟨raw, point⟩
  | none => .error (.misfit .content)

/-! ## The stages -/

/-- What a minimum of the main solve settles; if nothing, the point phase one starts from. -/
def afterMain (stages : Staged α) (c : ConvexProblem α n) (b : FrozenBox α n) (m : Minimum α β) :
    Except (SolveError ε) (Report α β ⊕ Start α b.count) := do
  let z ← written b m.point
  let x := b.full z.point
  let violation := c.violation x
  let success ← m.success.mapError .misfit
  let undecided := .inl (.unknown (m.termination stages.method) (some x.toArray) (some m) [])
  if success && decide (violation ≤ stages.tol) then
    return .inl (.solved c .feasiblePoint x (some m))
  else if success && decide (violation ≤ 10.0 * stages.tol) then
    return .inl (.solved c .nearlyFeasiblePoint x (some m))
  else if c.constraints.isEmpty then return undecided
  else if stages.tol < violation then return .inr z
  else
    match stages.method, m.status with
    | .trustRegion, _ => return undecided
    | .sequential, none => .error (.misfit .absent)
    | .sequential, some code =>
      return if code.equals (.int Minimum.incompatible) then .inr z else undecided

/-- What a minimum of the second main solve settles. -/
def afterRetry (stages : Staged α) (c : ConvexProblem α n) (b : FrozenBox α n) (m : Minimum α β) :
    Except (SolveError ε) (Report α β) := do
  let unsolved := .unknown (m.termination stages.method) none (some m) []
  if ← m.success.mapError .misfit then
    let x := b.full (← written b m.point).point
    return if c.violation x ≤ stages.tol then .solved c .feasiblePoint x (some m) else unsolved
  else return unsolved

/-- Solves once more from the point of phase one. -/
def retry (minimize : Minimizer α β ε σ) (stages : Staged α) (c : ConvexProblem α n)
    (b : FrozenBox α n) (main : Minimum α β) (z : Start α b.count) (s : σ) :
    Except (SolveError ε) (Report α β) × σ :=
  match minimize (mainJob stages c b z) s with
  | (.failed cause, s) => (.error (.failed cause), s)
  | (.brokeDown message, s) =>
    (.ok (.unknown (main.termination stages.method) none none [.solveRaised .retry message]), s)
  | (.finished m, s) => (afterRetry stages c b m, s)

/-- What a minimum of phase one settles; if nothing, the point to start once more from. -/
def afterPhaseOne (stages : Staged α) (c : ConvexProblem α n) (b : FrozenBox α n)
    (main m : Minimum α β) : Except (SolveError ε) (Report α β ⊕ Start α b.count) := do
  if ← m.success.mapError .misfit then
    let y ← written b (m.point.bind (·.dropLast))
    if stages.tol < c.violation (b.full y.point) then return .inl (.refuted (some m))
    else return .inr y
  else return .inl (.unknown (main.termination stages.method) none (some main) [])

/-- Decides between an infeasible problem and a failed solve. -/
def phaseOne (minimize : Minimizer α β ε σ) (stages : Staged α) (c : ConvexProblem α n)
    (b : FrozenBox α n) (main : Minimum α β) (z : Start α b.count) (s : σ) :
    Except (SolveError ε) (Report α β) × σ :=
  match slackJob stages c b z with
  | .error mismatch => (.ok (.brokeDown .phaseOne mismatch.message), s)
  | .ok job =>
    match minimize job s with
    | (.failed cause, s) => (.error (.failed cause), s)
    | (.brokeDown message, s) => (.ok (.brokeDown .phaseOne message), s)
    | (.finished m, s) =>
      match afterPhaseOne stages c b main m with
      | .error cause => (.error cause, s)
      | .ok (.inl report) => (.ok report, s)
      | .ok (.inr y) => retry minimize stages c b main y s

/-- Solves a problem all of whose coordinates are frozen. -/
def atBase (stages : Staged α) (c : ConvexProblem α n) (b : FrozenBox α n) : Report α β :=
  if c.violation b.base ≤ stages.tol then .solved c .feasiblePoint b.base none else .refuted none

def solve (minimize : Minimizer α β ε σ) (stages : Staged α) (c : ConvexProblem α n)
    (start : Option (Tensor α)) (s : σ) : Except (SolveError ε) (Report α β) × σ :=
  let b := FrozenBox.ofBox Defaults.nearZero c.box
  if b.count = 0 then (.ok (atBase stages c b), s)
  else
    match reduce b (start.getD (.ofVector c.midpoint)) with
    | .error (.misfit cause) => (.error (.misfit cause), s)
    | .error (.mismatch cause) => (.ok (.brokeDown .main cause.message), s)
    | .ok z =>
      match minimize (mainJob stages c b z) s with
      | (.failed cause, s) => (.error (.failed cause), s)
      | (.brokeDown message, s) => (.ok (.brokeDown .main message), s)
      | (.finished m, s) =>
        match afterMain stages c b m with
        | .error cause => (.error cause, s)
        | .ok (.inl report) => (.ok report, s)
        | .ok (.inr z) => phaseOne minimize stages c b m z s

/-- The stages as a convex solver. A minimum that does not fit leaves the problem unsolved. -/
def solver (minimize : Minimizer α β Empty σ) (stages : Staged α) : ConvexSolver α β n σ :=
  fun c start s ↦
    match solve minimize stages c (start.map .ofVector) s with
    | (.ok report, s) => (report.answer, s)
    | (.error _, s) => (⟨.otherError, .unknown, posInf, none⟩, s)

end Staged

end GlobalQcqp
