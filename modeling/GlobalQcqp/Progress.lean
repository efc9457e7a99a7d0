import GlobalQcqp.Scalar
/-!
# Progress of a search

What a search has established so far, the incumbent and the global lower bound, and how much work
that took.
-/

namespace GlobalQcqp

structure Progress (β π : Type) where
  incumbentValue : β
  incumbent : Option π
  lowerBound : β
  iterations : Nat
  nodesCreated : Nat
  nodesPruned : Nat
  nodesInfeasible : Nat
  lowerFailures : Nat
  lowerSolves : Nat
  upperSolves : Nat
  incumbentUpdates : Nat
  /-- The least bound of the nodes that were too narrow to split. -/
  resolutionBound : β
  resolutionNodes : Nat
  elapsed : β

namespace Progress

variable {α β π : Type} [Scalar α] [Scalar β] [Extended α β]

def start : Progress β π where
  incumbentValue := posInf
  incumbent := none
  lowerBound := negInf
  iterations := 0
  nodesCreated := 0
  nodesPruned := 0
  nodesInfeasible := 0
  lowerFailures := 0
  lowerSolves := 0
  upperSolves := 0
  incumbentUpdates := 0
  resolutionBound := posInf
  resolutionNodes := 0
  elapsed := 0

def hasIncumbent (s : Progress β π) : Bool :=
  s.incumbent.isSome

/-- The outcome of offering a candidate for the incumbent. -/
inductive Offer where
  | accepted
  | rejected
  /-- The point was no vector of numbers. -/
  | unreadable
deriving DecidableEq, Repr

/-- Takes a strictly better value as the new incumbent. The value is stored before the point is
read. -/
def offer (s : Progress β π) (value : β) (point : Option π) : Progress β π × Offer :=
  if value < s.incumbentValue then
    match point with
    | some x =>
      ({ s with
          incumbentValue := value
          incumbent := some x
          incumbentUpdates := s.incumbentUpdates + 1 },
        .accepted)
    | none => ({ s with incumbentValue := value }, .unreadable)
  else (s, .rejected)

def absoluteGap (s : Progress β π) : β :=
  s.incumbentValue - s.lowerBound

/-- The gap relative to the incumbent value, infinite until both bounds are known. -/
def relativeGap (s : Progress β π) : β :=
  if !s.hasIncumbent || !Scalar.isFinite s.lowerBound then posInf
  else s.absoluteGap / Scalar.max (Scalar.abs s.incumbentValue) 1e-10

end Progress

end GlobalQcqp
