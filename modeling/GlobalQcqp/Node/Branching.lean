import GlobalQcqp.Fault
import GlobalQcqp.Node
import GlobalQcqp.Problem
/-!
# Branching

Picks the variable to split a node on and the point to split it at.  Only branchable variables wider
than a minimum are eligible, and of equally good ones the first is taken.

The widest variable is measured against the root box.  The gap rule prefers the variable on which
the relaxed point lies farthest inside the box, where the underestimators are loosest, unless that
variable is much narrower than the widest one.
-/

namespace GlobalQcqp

inductive BranchingRule where
  | largestWidth
  | relaxationGap
deriving DecidableEq, Repr

inductive BranchPoint where
  | midpoint
  | relaxation
deriving DecidableEq, Repr

namespace Branching

variable {α β : Type} [Scalar α] [Scalar β] {k : Nat}

def nearZero : α := 1e-12

/-- The part of the width kept on each side of a split at the relaxed point. -/
def margin : α := 0.1

/-- A pick of the gap rule narrower than this part of the widest variable is dropped. -/
def widthRatio : α := 0.1

def eligible (branchable : Vector Bool k) (node : Node α β k) (minWidth : α) : List (Fin k) :=
  (List.finRange k).filter fun i ↦ branchable[i] && decide (minWidth < node.box.widths[i])

def relativeWidths (node : Node α β k) (rootWidths : Vector α k) : Vector α k :=
  Vector.ofFn fun i ↦
    node.box.widths[i] / (if nearZero < rootWidths[i] then rootWidths[i] else 1)

/-- How far a point lies inside the box on each side: the product of the distances to the two
ends. -/
def separation (box : Box α k) (x : Vector α k) : Vector α k :=
  Vector.ofFn fun i ↦
    let y := Scalar.clamp box.lower[i] box.upper[i] x[i]
    (y - box.lower[i]) * (box.upper[i] - y)

def widest? (rel : Vector α k) (candidates : List (Fin k)) : Option (Fin k) :=
  firstLargest? (fun i ↦ rel[i]) candidates

/-- The pick of the gap rule, given the widest candidate. -/
def gapPick (rel scores : Vector α k) (candidates : List (Fin k)) (widest : Fin k) : Fin k :=
  match firstLargest? (fun i ↦ scores[i]) candidates with
  | none => widest
  | some best =>
    if scores[best] ≤ nearZero then widest
    else if rel[best] < widthRatio * rel[widest] then widest
    else best

/-- The variable to split on, none if no variable is eligible. -/
def select (rule : BranchingRule) (branchable : Vector Bool k) (rootWidths : Vector α k)
    (minWidth : α) (node : Node α β k) : Except Misfit (Option (Fin k)) :=
  let candidates := eligible branchable node minWidth
  let rel := relativeWidths node rootWidths
  match widest? rel candidates with
  | none => .ok none
  | some widest =>
    match rule, node.relaxed with
    | .relaxationGap, some x =>
      match fit? k x with
      | none => .error .content
      | some x => .ok (some (gapPick rel (separation node.box x) candidates widest))
    | _, _ => .ok (some widest)

/-- The point to split side `i` at: its midpoint, or the relaxed point kept off both ends. -/
def point (rule : BranchPoint) (node : Node α β k) (i : Fin k) : Except Misfit α :=
  let side := node.box.side i
  match rule, node.relaxed with
  | .relaxation, some x =>
    match x[i.val]? with
    | none => .error .position
    | some a =>
      let m := margin * (side.hi - side.lo)
      .ok (Scalar.clamp (side.lo + m) (side.hi - m) a)
  | _, _ => .ok (0.5 * (side.lo + side.hi))

end Branching

end GlobalQcqp
