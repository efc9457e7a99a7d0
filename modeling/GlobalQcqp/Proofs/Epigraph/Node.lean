import GlobalQcqp.Proofs.Epigraph
import GlobalQcqp.Proofs.Node.Branching
import GlobalQcqp.Proofs.Tightening
/-!
# Nodes without the added variable

A node of a problem with an added epigraph variable is one of the problem without it, once the last
side of its box and the last entry of its relaxed point are left out.  The added variable is never
split, and its side is never crossed, so tightening and splitting a node do the same before and
after.
-/

namespace GlobalQcqp

/-! ## Boxes -/

namespace Box

section

variable {α : Type} [Scalar α] {k : Nat} (b c : Box α (k + 1))

theorem dropLast_midpoint : GlobalQcqp.dropLast b.midpoint = b.dropLast.midpoint := by
  refine Vector.ext fun i hi ↦ ?_
  simp [midpoint, dropLast]

theorem dropLast_widths : GlobalQcqp.dropLast b.widths = b.dropLast.widths := by
  refine Vector.ext fun i hi ↦ ?_
  simp [widths, dropLast]

theorem dropLast_clamp (x : Vector α (k + 1)) :
    GlobalQcqp.dropLast (b.clamp x) = b.dropLast.clamp (GlobalQcqp.dropLast x) := by
  refine Vector.ext fun i hi ↦ ?_
  simp [clamp, dropLast]

theorem dropLast_inter : (b.inter c).dropLast = b.dropLast.inter c.dropLast := by
  refine congrArg₂ mk (Vector.ext fun i hi ↦ ?_) (Vector.ext fun i hi ↦ ?_)
  · simp [inter, dropLast]
  · simp [inter, dropLast]

omit [Scalar α] in
theorem dropLast_setSide_last (s : Interval α) :
    (b.setSide (Fin.last k) s).dropLast = b.dropLast :=
  congrArg₂ mk (dropLast_set_last b.lower s.lo) (dropLast_set_last b.upper s.hi)

end

variable {k : Nat} {b : Box ℝ (k + 1)}

/-- Only a side that is not crossed can be left out without notice. -/
theorem isCrossed_dropLast (hlast : (b.side (Fin.last k)).lo ≤ (b.side (Fin.last k)).hi) :
    b.dropLast.isCrossed = b.isCrossed := by
  rw [isCrossed, isCrossed, List.finRange_succ_last, List.any_append, List.any_map]
  have hempty : (b.side (Fin.last k)).isEmpty = false := decide_eq_false (not_lt.mpr hlast)
  simp [hempty, Function.comp_def]

end Box

theorem Problem.dropLast_scatterBox {α : Type} [Scalar α] (p : Problem α) {range : Interval α}
    {h : ¬ range.hi < range.lo} (base : Box α (p.stored + 1)) (b : Box α p.size) :
    ((p.addEpigraph range h).scatterBox base b).dropLast = p.scatterBox base.dropLast b :=
  congrArg₂ Box.mk (p.dropLast_scatter base.lower b.lower) (p.dropLast_scatter base.upper b.upper)

theorem Problem.side_scatterBox_last {α : Type} [Scalar α] (p : Problem α) {range : Interval α}
    {h : ¬ range.hi < range.lo} (base : Box α (p.stored + 1)) (b : Box α p.size) :
    ((p.addEpigraph range h).scatterBox base b).side (Fin.last p.stored) =
      base.side (Fin.last p.stored) := by
  rw [side_scatterBox, p.variableAt?_addEpigraph_last range h]
  rfl

/-! ## Tightening -/

namespace Node

variable {α β : Type} {k : Nat}

/-- The node without the last side of its box and the last entry of its relaxed point. -/
def dropLast (node : Node α β (k + 1)) : Node α β k where
  priority := node.priority
  id := node.id
  depth := node.depth
  box := node.box.dropLast
  lowerBound := node.lowerBound
  relaxed := node.relaxed.map Array.pop
  status := node.status

@[simp] theorem box_dropLast (node : Node α β (k + 1)) : node.dropLast.box = node.box.dropLast :=
  rfl

@[simp] theorem relaxed_dropLast (node : Node α β (k + 1)) :
    node.dropLast.relaxed = node.relaxed.map Array.pop :=
  rfl

@[simp] theorem priority_dropLast (node : Node α β (k + 1)) :
    node.dropLast.priority = node.priority :=
  rfl

@[simp] theorem bound_dropLast [Scalar β] (node : Node α β (k + 1)) :
    node.dropLast.bound = node.bound :=
  rfl

theorem dropLast_tighten? {node : Node ℝ EReal (k + 1)} (hnode : node.box.IsProper)
    {b : Box ℝ (k + 1)} (hlast : b.side (Fin.last k) = node.box.side (Fin.last k)) :
    (node.tighten? b).map dropLast = node.dropLast.tighten? b.dropLast := by
  have hproper : ((node.box.inter b).side (Fin.last k)).lo ≤
      ((node.box.inter b).side (Fin.last k)).hi := by
    rw [Box.side_inter, hlast]
    simpa [Interval.inter] using hnode (Fin.last k)
  have hcrossed := Box.isCrossed_dropLast hproper
  rw [Box.dropLast_inter] at hcrossed
  simp only [tighten?]
  rw [box_dropLast, hcrossed]
  split
  · rfl
  · rw [Option.map_some, ← Box.dropLast_inter]
    rfl

end Node

namespace Problem

variable {p : Problem ℝ} {range : Interval ℝ} {h : ¬ range.hi < range.lo}

theorem tightenEpigraph_of_none (hp : p.epigraph = none) (node : Node ℝ EReal p.stored)
    (v : EReal) : p.tightenEpigraph node v = .ok node := by
  rw [tightenEpigraph, hp]
  rfl

/-- Clamping the added variable changes the last side of the box at most. -/
theorem exists_tightenEpigraph (node : Node ℝ EReal (p.stored + 1)) (v : EReal) :
    ∃ clamped, (p.addEpigraph range h).tightenEpigraph node v = .ok clamped ∧
      clamped.NarrowedFrom node ∧ clamped.dropLast = node.dropLast := by
  have hlast := position?_last p.stored
  cases hclamped : (p.addEpigraph range h).tightenEpigraph node v with
  | error cause =>
      simp only [tightenEpigraph, Node.clampAt, hlast] at hclamped
      cases hclamped
  | ok clamped =>
      obtain ⟨hnarrowed, hchange⟩ := Node.clampAt_eq_ok hclamped
      refine ⟨clamped, rfl, hnarrowed, ?_⟩
      rcases hchange with rfl | ⟨t, ht, i, hi, side, rfl⟩
      · rfl
      · cases ht
        cases hlast.symm.trans hi
        exact congrArg (fun box ↦ { node.dropLast with box := box })
          (Box.dropLast_setSide_last node.box side)

end Problem

/-- The added variable does not keep a tightened box from being taken over. -/
theorem Problem.dropLast_tighten?_scatterBox (p : Problem ℝ) {range : Interval ℝ}
    {h : ¬ range.hi < range.lo} {node : Node ℝ EReal (p.stored + 1)} (hnode : node.box.IsProper)
    (b : Box ℝ p.size) :
    (node.tighten? ((p.addEpigraph range h).scatterBox node.box b)).map Node.dropLast =
      node.dropLast.tighten? (p.scatterBox node.dropLast.box b) := by
  have htighten := Node.dropLast_tighten? hnode (p.side_scatterBox_last (h := h) node.box b)
  rwa [p.dropLast_scatterBox] at htighten

/-! ## Splitting -/

namespace Node

variable {α β : Type} {k : Nat}

section

variable [Scalar β] [Scalar α] [Extended α β] (node : Node α β (k + 1)) (i : Fin k) (value : α)
  (id : Int)

theorem dropLast_split : Prod.map dropLast dropLast (node.split i.castSucc value id) =
    node.dropLast.split i value id := by
  have hset (v : Vector α (k + 1)) : GlobalQcqp.dropLast (v.set i.castSucc value i.castSucc.isLt) =
      (GlobalQcqp.dropLast v).set i value i.isLt := by
    refine Vector.ext fun j hj ↦ ?_
    simp [Vector.getElem_set]
  simp only [split, fresh, Prod.map_apply, dropLast, Box.dropLast, hset]
  rfl

end

theorem dropLast_checked {node : Node ℝ EReal (k + 1)}
    (hlast : (node.box.side (Fin.last k)).lo ≤ (node.box.side (Fin.last k)).hi) :
    node.checked.map dropLast = node.dropLast.checked := by
  rw [checked, checked, box_dropLast, Box.isCrossed_dropLast hlast]
  split
  · rfl
  · rfl

/-- A split at another variable leaves the last side alone. -/
theorem dropLast_split? {node : Node ℝ EReal (k + 1)} (hnode : node.box.IsProper) (i : Fin k)
    (value : ℝ) (id : Int) : (node.split? i.castSucc value id).map (Prod.map dropLast dropLast) =
      node.dropLast.split? i value id := by
  have hne : Fin.last k ≠ i.castSucc := (Fin.castSucc_lt_last i).ne'
  have hleft : (node.split i.castSucc value id).1.checked.map dropLast =
      (node.dropLast.split i value id).1.checked := by
    rw [dropLast_checked, ← dropLast_split]
    · rfl
    · rw [split_left_box, Box.side_setSide, if_neg hne]
      exact hnode (Fin.last k)
  have hright : (node.split i.castSucc value id).2.checked.map dropLast =
      (node.dropLast.split i value id).2.checked := by
    rw [dropLast_checked, ← dropLast_split]
    · rfl
    · rw [split_right_box, Box.side_setSide, if_neg hne]
      exact hnode (Fin.last k)
  rw [split?, split?]
  simp only
  refine map_bind_eq hleft fun left _ ↦ ?_
  exact map_bind_eq hright fun right _ ↦ rfl

end Node

/-! ## Branching -/

theorem firstLargest?_map {α ι κ : Type} [Scalar α] (f : κ → α) (g : ι → κ) (l : List ι) :
    firstLargest? f (l.map g) = (firstLargest? (fun i ↦ f (g i)) l).map g := by
  have hbetter (i j : ι) : firstLargest?.better f (g i) (g j) =
      g (firstLargest?.better (fun i ↦ f (g i)) i j) := by
    simp only [firstLargest?.better]
    split
    · rfl
    · split
      · rfl
      · rfl
  have hfold (rest : List ι) (i : ι) : (rest.map g).foldl (firstLargest?.better f) (g i) =
      g (rest.foldl (firstLargest?.better fun i ↦ f (g i)) i) := by
    induction rest generalizing i with
    | nil => rfl
    | cons j rest ih => rw [List.map_cons, List.foldl_cons, List.foldl_cons, hbetter, ih]
  cases l with
  | nil => rfl
  | cons i rest => exact congrArg some (hfold rest i)

theorem getElem?_pop {ε : Type} {k : Nat} {x : Array ε} (hx : x.size = k + 1) (i : Fin k) :
    x.pop[i.val]? = x[i.val]? := by
  rw [Array.getElem?_pop, if_pos]
  omega

namespace Branching

variable {α β : Type} [Scalar α] {k : Nat} (node : Node α β (k + 1))

theorem dropLast_relativeWidths (rootWidths : Vector α (k + 1)) :
    dropLast (relativeWidths node rootWidths) =
      relativeWidths node.dropLast (dropLast rootWidths) := by
  refine Vector.ext fun i hi ↦ ?_
  simp [relativeWidths, ← Box.dropLast_widths]

theorem dropLast_separation (box : Box α (k + 1)) (x : Vector α (k + 1)) :
    dropLast (separation box x) = separation box.dropLast (dropLast x) := by
  refine Vector.ext fun i hi ↦ ?_
  simp [separation, Box.dropLast]

/-- The added variable is never eligible. -/
theorem eligible_push (branchable : Vector Bool k) (minWidth : α) :
    eligible (branchable.push false) node minWidth =
      (eligible branchable node.dropLast minWidth).map Fin.castSucc := by
  rw [eligible, List.finRange_succ_last, List.filter_append, List.filter_map]
  simp only [Function.comp_def]
  simp [eligible, ← Box.dropLast_widths]

theorem widest?_map (rel : Vector α (k + 1)) (candidates : List (Fin k)) :
    widest? rel (candidates.map Fin.castSucc) =
      (widest? (dropLast rel) candidates).map Fin.castSucc := by
  rw [widest?, firstLargest?_map]
  simp [widest?]

theorem gapPick_map (rel scores : Vector α (k + 1)) (candidates : List (Fin k)) (widest : Fin k) :
    gapPick rel scores (candidates.map Fin.castSucc) widest.castSucc =
      (gapPick (dropLast rel) (dropLast scores) candidates widest).castSucc := by
  have hscore (i : Fin k) : scores[i.castSucc] = (dropLast scores)[i] := by simp
  have hrel (i : Fin k) : rel[i.castSucc] = (dropLast rel)[i] := by simp
  simp only [gapPick, firstLargest?_map, hscore]
  cases firstLargest? (fun i ↦ (dropLast scores)[i]) candidates with
  | none => rfl
  | some best =>
      simp only [Option.map_some, hscore, hrel]
      split
      · rfl
      · split
        · rfl
        · rfl

variable {node} (hsize : ∀ x ∈ node.relaxed, x.size = k + 1)

include hsize

theorem select_push (rule : BranchingRule) (branchable : Vector Bool k)
    (rootWidths : Vector α (k + 1)) (minWidth : α) :
    select rule (branchable.push false) rootWidths minWidth node =
      (select rule branchable (dropLast rootWidths) minWidth node.dropLast).map
        (Option.map Fin.castSucc) := by
  simp only [select, eligible_push, widest?_map, dropLast_relativeWidths]
  cases widest? (relativeWidths node.dropLast (dropLast rootWidths))
    (eligible branchable node.dropLast minWidth) with
  | none => rfl
  | some widest =>
      simp only [Option.map_some]
      cases rule with
      | largestWidth => rfl
      | relaxationGap =>
          cases hrelaxed : node.relaxed with
          | none =>
              simp only [Node.relaxed_dropLast, hrelaxed]
              rfl
          | some x =>
              have hx := hsize x hrelaxed
              have hpop : x.pop.size = k := by simp [hx]
              simp only [Node.relaxed_dropLast, Node.box_dropLast, hrelaxed, Option.map_some, fit?,
                dif_pos hx, dif_pos hpop]
              have hvector : (⟨x.pop, hpop⟩ : Vector α k) = dropLast ⟨x, hx⟩ :=
                Vector.toArray_inj.mp (toArray_dropLast (⟨x, hx⟩ : Vector α (k + 1))).symm
              rw [hvector, ← dropLast_separation, gapPick_map, dropLast_relativeWidths]
              rfl

theorem point_dropLast (rule : BranchPoint) (i : Fin k) :
    point rule node i.castSucc = point rule node.dropLast i := by
  have hside : node.box.side i.castSucc = node.dropLast.box.side i :=
    (Box.side_dropLast node.box i).symm
  simp only [point, hside]
  cases rule with
  | midpoint => rfl
  | relaxation =>
      cases hrelaxed : node.relaxed with
      | none =>
          simp only [Node.relaxed_dropLast, hrelaxed]
          rfl
      | some x =>
          simp only [Node.relaxed_dropLast, hrelaxed, Option.map_some,
            getElem?_pop (hsize x hrelaxed)]
          rfl

end Branching

end GlobalQcqp
