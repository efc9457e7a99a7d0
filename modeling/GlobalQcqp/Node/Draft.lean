import GlobalQcqp.Node
import GlobalQcqp.Tensor.Reader
/-!
# Node drafts

A node as it is given: its numbers are settings of any kind, and its box and relaxed point have the
shape they came in.  Operations on a draft match shapes like those of tensors, and fail where two
settings do not compare.
-/

namespace GlobalQcqp

structure NodeDraft where
  priority : Setting
  id : Setting
  depth : Setting
  lower : Tensor Float
  upper : Tensor Float
  lowerBound : Setting
  relaxed : Option (Tensor Float)
  status : LowerStatus

inductive DraftError where
  | misfit (cause : Misfit)
  | node (cause : NodeError)

namespace NodeDraft

def misfit {ε : Type} (x : Except Misfit ε) : Except DraftError ε :=
  x.mapError .misfit

/-- Some entry of one tensor is larger than the entry of the other. -/
private def anyLarger (a b : Tensor Float) : Except Misfit Bool := do
  return (← Tensor.zipWith (fun x y ↦ decide (y < x)) a b).entries.contains true

def checked (d : NodeDraft) : Except DraftError NodeDraft := do
  if d.lower.shape ≠ d.upper.shape then .error (.node .lengths)
  if ← misfit (anyLarger d.lower d.upper) then .error (.node .crossed)
  return d

def bound (d : NodeDraft) : Except Misfit Setting :=
  Setting.larger d.priority d.lowerBound

def widths (d : NodeDraft) : Except Misfit (Tensor Float) :=
  Tensor.zipWith (· - ·) d.upper d.lower

def midpoint (d : NodeDraft) : Except Misfit (Tensor Float) :=
  Tensor.zipWith (fun a b ↦ 0.5 * (a + b)) d.lower d.upper

def tighten? (d : NodeDraft) (lower upper : Except Misfit (Tensor Float)) :
    Except Misfit (Option NodeDraft) := do
  let lower ← Tensor.zipWith Scalar.greater d.lower (← lower)
  let upper ← Tensor.zipWith Scalar.lesser d.upper (← upper)
  return if ← anyLarger lower upper then none else some { d with lower, upper }

def markInfeasible (d : NodeDraft) : NodeDraft :=
  { d with status := .infeasible, lowerBound := .real posInf }

/-- Splits the box at `value` where an index picks. The halves inherit the bound and the relaxed
point. -/
def split? (d : NodeDraft) (place : Except Misfit Place)
    (value : Except Misfit (Tensor Float)) (id : Setting) :
    Except DraftError (NodeDraft × NodeDraft) := do
  let bound ← misfit d.bound
  let place ← misfit place
  let _ ← misfit (d.upper.pick place)
  let value ← misfit value
  let upper ← misfit (d.upper.replace place value)
  let lower ← misfit (d.lower.replace place value)
  let half (id : Setting) (lower upper : Tensor Float) : Except DraftError NodeDraft := do
    let depth ← misfit d.depth.succ
    let half : NodeDraft := { d with
      priority := bound, id, depth, lower, upper, lowerBound := .real negInf, status := .unsolved }
    half.checked
  return (← half id d.lower upper, ← half (← misfit id.succ) lower d.upper)

/-! ## Order -/

/-- Smaller priority, or equal priority and smaller number. -/
def isBefore (a b : NodeDraft) : Except Misfit Bool :=
  if !a.priority.equals b.priority then a.priority.isLess b.priority
  else if !a.id.equals b.id then a.id.isLess b.id
  else .ok false

def isSame (a b : NodeDraft) : Bool :=
  a.priority.equals b.priority && a.id.equals b.id

def compare (a b : NodeDraft) : Except Misfit Node.Comparison := do
  let lt ← a.isBefore b
  let gt ← b.isBefore a
  let eq := a.isSame b
  return ⟨lt, lt || eq, gt, gt || eq, eq⟩

/-- Deeper, or equally deep and of smaller number. -/
def isDeeper (a b : NodeDraft) : Except Misfit Bool := do
  if ← b.depth.isLess a.depth then return true
  else if a.depth.equals b.depth then a.id.isLess b.id
  else return false

/-! ## Nodes -/

/-- The node of a draft whose numbers are numbers and whose ends are vectors. A relaxed point
without dimensions has nothing at any position. -/
def toNode (d : NodeDraft) : Except Misfit ((k : Nat) × Node Float Float k) := do
  let number (v : Setting) : Except Misfit Float := v.number?.elim (.error .kind) .ok
  let k := d.lower.entries.size
  match d.lower.toVector? k, d.upper.toVector? k with
  | some lower, some upper =>
    return ⟨k, {
      priority := ← number d.priority
      id := ← d.id.toInt
      depth := ← d.depth.toInt
      box := ⟨lower, upper⟩
      lowerBound := ← number d.lowerBound
      relaxed := d.relaxed.map fun x ↦ if x.shape.isEmpty then #[] else x.entries
      status := d.status }⟩
  | _, _ => .error .kind

end NodeDraft

end GlobalQcqp
