import GlobalQcqp.Node.Branching
import GlobalQcqp.Node.Draft
/-!
# Branching on drafts

The rules of branching with every step on tensors: mask, widths and relaxed point are matched like
tensors, and a position is looked up where it is used.
-/

namespace GlobalQcqp.NodeDraft

private def truePositions (t : Tensor Bool) : List Int :=
  let width := Tensor.volume (t.shape.drop 1)
  (t.entries.toList.zipIdx.filter (·.1)).map fun (_, i) ↦ (i / width : Nat)

def eligible (d : NodeDraft) (branchable : Tensor Bool) (minWidth : Except Misfit (Tensor Float)) :
    Except Misfit (List Int) := do
  let wide ← Tensor.zipWith (fun w m ↦ decide (m < w)) (← d.widths) (← minWidth)
  return truePositions (← Tensor.zipWith (· && ·) branchable wide)

def relativeWidths (d : NodeDraft) (rootWidths : Tensor Float) : Except Misfit (Tensor Float) := do
  let scale := rootWidths.map fun w ↦ if Branching.nearZero < w then w else 1.0
  Tensor.zipWith (· / ·) (← d.widths) scale

/-- The position of the first largest score, with that score. -/
private def best (scores : Tensor Float) (candidates : List Int) : Except Misfit (Int × Float) := do
  let picked := (← scores.rows candidates).entries.toList.zipIdx
  match firstLargest? (·.1) picked with
  | none => .error .content
  | some (score, i) => candidates[i]?.elim (.error .position) fun k ↦ .ok (k, score)

/-- A part that is to be a single number where it is compared. -/
private def numberAt (t : Tensor Float) (k : Int) : Except Misfit Float := do
  (← t.row k).only?.elim (.error .content) .ok

private def separation (d : NodeDraft) (x : Tensor Float) : Except Misfit (Tensor Float) := do
  let x ← Tensor.zipWith Scalar.lesser (← Tensor.zipWith Scalar.greater x d.lower) d.upper
  Tensor.zipWith (· * ·) (← Tensor.zipWith (· - ·) x d.lower) (← Tensor.zipWith (· - ·) d.upper x)

def gapPick (d : NodeDraft) (rootWidths x : Tensor Float) (candidates : List Int) (widest : Int) :
    Except Misfit Int := do
  let (pick, score) ← best (← d.separation x) candidates
  if score ≤ Branching.nearZero then return widest
  let rel ← d.relativeWidths rootWidths
  if (← numberAt rel pick) < Branching.widthRatio * (← numberAt rel widest) then return widest
  return pick

def select (d : NodeDraft) (rule : BranchingRule) (branchable : Tensor Bool)
    (rootWidths : Except Misfit (Tensor Float)) (minWidth : Except Misfit (Tensor Float)) :
    Except Misfit (Option Int) := do
  let candidates ← d.eligible branchable minWidth
  if candidates.isEmpty then return none
  let rootWidths ← rootWidths
  let (widest, _) ← best (← d.relativeWidths rootWidths) candidates
  match rule, d.relaxed with
  | .relaxationGap, some x => return some (← d.gapPick rootWidths x candidates widest)
  | _, _ => return some widest

/-- The point to split at where an index picks: the midpoint, or the relaxed point kept off both
ends. -/
def point (d : NodeDraft) (rule : BranchPoint) (place : Except Misfit Place) :
    Except Misfit Float := do
  let place ← place
  let lo ← d.lower.pick place
  let hi ← d.upper.pick place
  let number (t : Tensor Float) : Except Misfit Float := t.only?.elim (.error .kind) .ok
  match rule, d.relaxed with
  | .relaxation, some x =>
    let margin ← Tensor.zipWith (fun a b ↦ Branching.margin * (b - a)) lo hi
    let lo ← Tensor.zipWith (· + ·) lo margin
    let hi ← Tensor.zipWith (· - ·) hi margin
    number (← Tensor.zipWith Scalar.lesser (← Tensor.zipWith Scalar.greater (← x.pick place) lo) hi)
  | _, _ => number (← Tensor.zipWith (fun a b ↦ 0.5 * (a + b)) lo hi)

end GlobalQcqp.NodeDraft
