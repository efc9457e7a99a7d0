import GlobalQcqp.Quadratic
/-!
# Problems

A problem asks for the least value of a quadratic over a finite box, subject to quadratic
inequalities `g x ≤ 0` and equalities `h x = 0`.

The box covers every *stored* variable.  The functions act on the *optimized* ones, which `places`
puts among the stored ones; any other stored variable is auxiliary.  The epigraph variable, when
there is one, is an auxiliary variable whose range follows the objective value.
-/

namespace GlobalQcqp

structure Problem (α : Type) [Scalar α] where
  stored : Nat
  size : Nat
  objective : Quadratic α size
  constraints : List (Quadratic α size)
  equalities : List (Quadratic α size)
  box : Box α stored
  places : Vector (Fin stored) size
  branchable : Vector Bool stored
  absTol : α
  relTol : α
  epigraph : Option Int
  not_crossed : ∀ i : Fin stored, ¬ box.upper[i] < box.lower[i]
  places_injective : ∀ i j : Fin size, places[i] = places[j] → i = j
  absTol_nonneg : ¬ absTol < 0
  relTol_nonneg : ¬ relTol < 0

namespace Problem

variable {α : Type} [Scalar α]

def restrict {ε : Type} (p : Problem α) (v : Vector ε p.stored) : Vector ε p.size :=
  Vector.ofFn fun i ↦ v[p.places[i]]

/-- The optimized variable at a stored position. -/
def variableAt? (p : Problem α) (s : Fin p.stored) : Option (Fin p.size) :=
  (List.finRange p.size).find? fun i ↦ p.places[i] == s

def scatter {ε : Type} (p : Problem α) (base : Vector ε p.stored) (x : Vector ε p.size) :
    Vector ε p.stored :=
  Vector.ofFn fun s ↦ (p.variableAt? s).elim base[s] fun i ↦ x[i]

def restrictBox (p : Problem α) (b : Box α p.stored) : Box α p.size :=
  ⟨p.restrict b.lower, p.restrict b.upper⟩

def scatterBox (p : Problem α) (base : Box α p.stored) (b : Box α p.size) : Box α p.stored :=
  ⟨p.scatter base.lower b.lower, p.scatter base.upper b.upper⟩

def auxiliary (p : Problem α) : List (Fin p.stored) :=
  (List.finRange p.stored).filter fun s ↦ (p.variableAt? s).isNone

def violation (p : Problem α) (x : Vector α p.size) : α :=
  let worst := p.constraints.foldl (fun w g ↦ Scalar.max w (g.eval x)) 0
  p.equalities.foldl (fun w h ↦ Scalar.max w (Scalar.abs (h.eval x))) worst

/-- The point lies within `tol` of a box and violates no constraint by more. -/
def isFeasibleIn (p : Problem α) (b : Box α p.size) (tol : α) (x : Vector α p.size) : Bool :=
  !b.isMissedBy tol x && decide (p.violation x ≤ tol)

def isFeasible (p : Problem α) (tol : α) (x : Vector α p.size) : Bool :=
  p.isFeasibleIn (p.restrictBox p.box) tol x

/-- The entries at the optimized variables of a sequence whose length need not match. -/
def restrict? {ε : Type} (p : Problem α) (v : Array ε) : Option (Vector ε p.size) :=
  p.places.mapM fun s ↦ v[s.val]?

/-! ## The epigraph variable -/

def objectiveRange (p : Problem α) : Interval α :=
  p.objective.interval (p.restrictBox p.box).sides

/-- The problem with one more stored variable, which takes the given range and is not branched
on. -/
abbrev addEpigraph (p : Problem α) (range : Interval α) (h : ¬ range.hi < range.lo) :
    Problem α where
  stored := p.stored + 1
  size := p.size
  objective := p.objective
  constraints := p.constraints
  equalities := p.equalities
  box := ⟨p.box.lower.push range.lo, p.box.upper.push range.hi⟩
  places := p.places.map Fin.castSucc
  branchable := p.branchable.push false
  absTol := p.absTol
  relTol := p.relTol
  epigraph := some p.stored
  not_crossed i := by
    by_cases hi : i.val < p.stored
    · simpa [Vector.getElem_push, hi] using p.not_crossed ⟨i, hi⟩
    · simpa [Vector.getElem_push, hi] using h
  places_injective i j hij := p.places_injective i j (by simpa [Fin.ext_iff] using hij)
  absTol_nonneg := p.absTol_nonneg
  relTol_nonneg := p.relTol_nonneg

end Problem

end GlobalQcqp
