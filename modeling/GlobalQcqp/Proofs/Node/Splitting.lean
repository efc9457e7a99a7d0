import GlobalQcqp.Proofs.Search.Execution
import GlobalQcqp.Proofs.Node.Rank
/-!
# Splits cover the node and narrow it

As long as one branchable variable is wider than the minimum, one is picked, no rule takes one much
narrower than the widest, and the node is split at it wherever the relaxed point lies.  The halves
cover the box and share only the points at the cut, and each is narrower by the margin at least.
-/

namespace GlobalQcqp

variable {k : ℕ}

/-! ## The largest candidate -/

theorem value_better {ι : Type} (value : ι → ℝ) (i j : ι) :
    value (firstLargest?.better value i j) = max (value i) (value j) := by
  simp only [firstLargest?.better, Scalar.isUndefined_real, Bool.false_or, Bool.false_eq_true,
    if_false, decide_eq_true_eq]
  split
  · exact (max_eq_right (le_of_lt ‹_›)).symm
  · exact (max_eq_left (not_lt.mp ‹_›)).symm

theorem le_value_foldl_better {ι : Type} (value : ι → ℝ) {rest : List ι} {best j : ι}
    (hj : j ∈ best :: rest) : value j ≤ value (rest.foldl (firstLargest?.better value) best) := by
  induction rest generalizing best j with
  | nil => rw [List.mem_singleton.mp hj, List.foldl_nil]
  | cons i rest ih =>
      have hfirst := ih (List.mem_cons_self : firstLargest?.better value best i ∈ _ :: rest)
      rw [value_better value] at hfirst
      rw [List.foldl_cons]
      rcases List.mem_cons.mp hj with rfl | hj
      · exact (le_max_left _ _).trans hfirst
      · rcases List.mem_cons.mp hj with rfl | hj
        · exact (le_max_right _ _).trans hfirst
        · exact ih (List.mem_cons_of_mem _ hj)

theorem le_of_firstLargest? {ι : Type} {value : ι → ℝ} {l : List ι} {i j : ι}
    (h : firstLargest? value l = some i) (hj : j ∈ l) : value j ≤ value i := by
  cases l with
  | nil => cases h
  | cons best rest =>
      cases h
      exact le_value_foldl_better value hj

theorem firstLargest?_eq_none {ι : Type} (value : ι → ℝ) {l : List ι} :
    firstLargest? value l = none ↔ l = [] := by
  cases l <;> simp [firstLargest?]

/-! ## The pick -/

namespace Branching

variable {minWidth : ℝ} {rule : BranchingRule} {branchable : Vector Bool k}
  {rootWidths : Vector ℝ k} {node : Node ℝ EReal k}

/-- Widths are compared in parts of a positive width. -/
theorem relativeWidths_pos (rootWidths : Vector ℝ k) {j : Fin k} (hj : 0 < node.box.widths[j]) :
    0 < (relativeWidths node rootWidths)[j] := by
  have hscale : 0 < if nearZero < rootWidths[j] then rootWidths[j] else 1 := by
    split
    · exact lt_trans (by norm_num [nearZero]) ‹nearZero < rootWidths[j]›
    · exact one_pos
  simpa only [relativeWidths, getElem_fin, Vector.getElem_ofFn] using div_pos hj hscale

/-- The gap rule does not pick a variable much narrower than the widest one. -/
theorem widest_le_gapPick {rel scores : Vector ℝ k} {candidates : List (Fin k)} {widest : Fin k}
    (hwidest : 0 < rel[widest]) :
    0.1 * rel[widest] ≤ rel[gapPick rel scores candidates widest] := by
  have hself : 0.1 * rel[widest] ≤ rel[widest] := by linarith
  unfold gapPick
  split
  · exact hself
  · split
    · exact hself
    · split
      · exact hself
      · exact not_lt.mp ‹¬ rel[_] < widthRatio * rel[widest]›

theorem select_eq_none_iff (hsize : ∀ x ∈ node.relaxed, x.size = k) :
    select rule branchable rootWidths minWidth node = .ok none ↔
      ∀ j : Fin k, branchable[j] = true → node.box.widths[j] ≤ minWidth := by
  have hnone : eligible branchable node minWidth = [] ↔
      ∀ j : Fin k, branchable[j] = true → node.box.widths[j] ≤ minWidth := by
    simp only [List.eq_nil_iff_forall_not_mem, mem_eligible, not_and, not_lt]
  rw [← hnone, ← firstLargest?_eq_none fun j ↦ (relativeWidths node rootWidths)[j]]
  simp only [select, widest?]
  cases firstLargest? (fun j ↦ (relativeWidths node rootWidths)[j])
    (eligible branchable node minWidth) with
  | none => simp
  | some widest =>
      simp only [reduceCtorEq, iff_false]
      split
      · rename_i x hx
        rw [fit?, dif_pos (hsize x hx)]
        simp
      · simp

/-- The picked variable is not much narrower than any other eligible one. -/
theorem le_relativeWidths_of_select (hmin : 0 ≤ minWidth) {i j : Fin k}
    (h : select rule branchable rootWidths minWidth node = .ok (some i))
    (hj : j ∈ eligible branchable node minWidth) :
    0.1 * (relativeWidths node rootWidths)[j] ≤ (relativeWidths node rootWidths)[i] := by
  simp only [select] at h
  split at h
  · cases h
  · rename_i widest hwidest
    have hle := le_of_firstLargest? hwidest hj
    have hwide := (mem_eligible.mp (mem_of_firstLargest? hwidest)).2
    have hpos := relativeWidths_pos rootWidths (hmin.trans_lt hwide)
    split at h
    · split at h
      · cases h
      · cases h
        refine le_trans ?_ (widest_le_gapPick hpos)
        linarith
    · cases h
      linarith

end Branching

/-! ## The cut -/

namespace Node

variable {node left right : Node ℝ EReal k} {i : Fin k} {value : ℝ} {id : ℤ}

theorem mem_box_of_split? (h : node.split? i value id = .ok (left, right)) (x : Vector ℝ k) :
    (x ∈ left.box ↔ x ∈ node.box ∧ x[i] ≤ value) ∧
      (x ∈ right.box ↔ x ∈ node.box ∧ value ≤ x[i]) := by
  obtain ⟨hleft, hright⟩ := split?_box_le h
  obtain ⟨hlower, hupper⟩ := split?_box_eq h
  have hcut {side : Interval ℝ} (hx : x ∈ node.box.setSide i side) : x[i] ∈ side := by
    have hi := hx i
    rwa [Box.side_setSide, if_pos rfl] at hi
  constructor
  · constructor
    · intro hx
      exact ⟨Box.mem_of_le hleft hx, (hcut (hlower ▸ hx)).2⟩
    · rintro ⟨hx, hle⟩
      exact hlower ▸ Box.mem_setSide hx ⟨(hx i).1, hle⟩
  · constructor
    · intro hx
      exact ⟨Box.mem_of_le hright hx, (hcut (hupper ▸ hx)).1⟩
    · rintro ⟨hx, hle⟩
      exact hupper ▸ Box.mem_setSide hx ⟨hle, (hx i).2⟩

/-- What a half is given by its node when side `i` is split. -/
structure IsHalfAt (node half : Node ℝ EReal k) (i : Fin k) : Prop where
  isProper : half.box.IsProper
  narrows : 0.1 * node.box.widths[i] ≤ half.box.widths[i] ∧
    half.box.widths[i] ≤ 0.9 * node.box.widths[i]
  side_eq : ∀ j, j ≠ i → half.box.side j = node.box.side j
  priority_eq : half.priority = node.bound
  depth_eq : half.depth = node.depth + 1
  relaxed_eq : half.relaxed = node.relaxed

theorem isHalfAt_of_split? {branchPoint : BranchPoint} (hbox : node.box.IsProper)
    (hpoint : Branching.point branchPoint node i = .ok value)
    (h : node.split? i value id = .ok (left, right)) :
    IsHalfAt node left i ∧ IsHalfAt node right i := by
  obtain ⟨hsplit, hproper, hproper'⟩ := split?_eq_ok_iff.mp h
  obtain ⟨hlower, hupper⟩ := split?_box_eq h
  obtain ⟨hlo, hhi⟩ := Branching.point_mem (hbox i) hpoint
  have hwidth := Box.getElem_widths node.box i
  have hcut {side : Interval ℝ} : (node.box.setSide i side).widths[i] = side.hi - side.lo := by
    rw [Box.getElem_widths, Box.side_setSide, if_pos rfl]
  have hkept {side : Interval ℝ} (j : Fin k) (hj : j ≠ i) :
      (node.box.setSide i side).side j = node.box.side j := by
    rw [Box.side_setSide, if_neg hj]
  cases hsplit
  refine ⟨⟨hproper, ?_, ?_, rfl, rfl, rfl⟩, ⟨hproper', ?_, ?_, rfl, rfl, rfl⟩⟩
  · rw [hlower, hcut]
    constructor
    · linarith
    · linarith
  · rw [hlower]
    exact hkept
  · rw [hupper, hcut]
    constructor
    · linarith
    · linarith
  · rw [hupper]
    exact hkept

end Node

namespace Branching

/-- No variable is picked exactly when no branchable one is wider than the minimum.  Otherwise the
pick is wide enough itself and in comparison with the others, and the node can be split at it: the
halves cover the box, share the points at the cut, and inherit all but the side that is cut. -/
theorem select_splits (p : Problem ℝ) (node : Node ℝ EReal p.stored) (hbox : node.box.IsProper)
    (hsize : ∀ x ∈ node.relaxed, x.size = p.stored) (rootWidths : Vector ℝ p.stored) {minWidth : ℝ}
    (hmin : 0 ≤ minWidth) (rule : BranchingRule) (branchPoint : BranchPoint) :
    let wide (j : Fin p.stored) := p.branchable[j] = true ∧ minWidth < node.box.widths[j]
    let picked := select rule p.branchable rootWidths minWidth node
    (picked = .ok none ↔ ∀ j, ¬ wide j) ∧
      ((∃ j, wide j) → ∃ i, picked = .ok (some i) ∧ wide i ∧
        (∀ j, wide j →
          0.1 * (relativeWidths node rootWidths)[j] ≤ (relativeWidths node rootWidths)[i]) ∧
        ∃ value, point branchPoint node i = .ok value ∧ value ∈ node.box.side i ∧
          ∀ id, ∃ left right, node.split? i value id = .ok (left, right) ∧
            (∀ x, x ∈ left.box ∨ x ∈ right.box ↔ x ∈ node.box) ∧
            (∀ x, x ∈ left.box ∧ x ∈ right.box ↔ x ∈ node.box ∧ x[i] = value) ∧
            node.IsHalfAt left i ∧ node.IsHalfAt right i) := by
  intro wide picked
  have hnone : picked = .ok none ↔ ∀ j, ¬ wide j := by
    simp only [picked, wide, select_eq_none_iff hsize, not_and, not_lt]
  refine ⟨hnone, fun ⟨j, hj⟩ ↦ ?_⟩
  obtain ⟨pick, hpick⟩ := select_succeeds hsize rule p.branchable rootWidths minWidth
  cases pick with
  | none => exact absurd hj (hnone.mp hpick j)
  | some i =>
      obtain ⟨value, hvalue⟩ := point_succeeds hsize branchPoint i
      have hside : value ∈ node.box.side i := point_mem_side (hbox i) hvalue
      refine ⟨i, hpick, mem_eligible.mp (mem_eligible_of_select hpick), ?_, value, hvalue, hside,
        fun id ↦ ?_⟩
      · intro j hj
        exact le_relativeWidths_of_select hmin hpick (mem_eligible.mpr hj)
      · obtain ⟨⟨left, right⟩, hsplit⟩ := Node.split?_succeeds id hbox hside
        refine ⟨left, right, hsplit, fun x ↦ ?_, fun x ↦ ?_,
          Node.isHalfAt_of_split? hbox hvalue hsplit⟩
        · obtain ⟨hleft, hright⟩ := Node.mem_box_of_split? hsplit x
          rw [hleft, hright, ← and_or_left]
          exact and_iff_left (le_total _ _)
        · obtain ⟨hleft, hright⟩ := Node.mem_box_of_split? hsplit x
          rw [hleft, hright, ← and_and_left, ← le_antisymm_iff]

/-- A relaxed point right of the unit interval puts the cut as far to the right as it may be. -/
theorem line_select_splits :
    let node : Node ℝ EReal 1 := { Search.root (Line.problem []) with relaxed := some #[5] }
    node.box.IsProper ∧ (∀ x ∈ node.relaxed, x.size = 1) ∧ (0 : ℝ) ≤ 0.5 ∧
      select .relaxationGap (Line.problem []).branchable node.box.widths 0.5 node = .ok (some 0) ∧
      point .relaxation node 0 = .ok 0.9 ∧
      ∃ left right, node.split? 0 0.9 1 = .ok (left, right) ∧
        #v[0.9] ∈ left.box ∧ #v[0.9] ∈ right.box := by
  intro node
  have hbox : node.box.IsProper := (Line.problem []).box_isProper
  have hsize : ∀ x ∈ node.relaxed, x.size = 1 := by
    intro x hx
    cases hx
    rfl
  have hmin : (0 : ℝ) ≤ 0.5 := by norm_num
  have hwide : (0.5 : ℝ) < node.box.widths[(0 : Fin 1)] := by
    have hside : node.box.side 0 = ⟨0, 1⟩ := rfl
    rw [Box.getElem_widths, hside]
    norm_num
  have hpoint : point .relaxation node 0 = .ok 0.9 := by
    have hclamp : Scalar.clamp ((0 : ℝ) + margin * (1 - 0)) (1 - margin * (1 - 0)) 5 = 0.9 := by
      rw [Scalar.clamp_real]
      norm_num [margin]
    exact congrArg Except.ok hclamp
  obtain ⟨-, hsplits⟩ := select_splits (Line.problem []) node hbox hsize node.box.widths hmin
    .relaxationGap .relaxation
  obtain ⟨i, hpick, -, -, value, hvalue, -, hcut⟩ := hsplits ⟨0, rfl, hwide⟩
  obtain rfl : i = 0 := Subsingleton.elim i 0
  obtain rfl : value = 0.9 := Except.ok.inj (hvalue.symm.trans hpoint)
  obtain ⟨left, right, hsplit, -, hmeet, -⟩ := hcut 1
  refine ⟨hbox, hsize, hmin, hpick, hpoint, left, right, hsplit, (hmeet #v[0.9]).mpr ⟨?_, rfl⟩⟩
  have hunit : (0 : ℝ) ≤ 0.9 ∧ (0.9 : ℝ) ≤ 1 := by
    constructor <;> norm_num
  exact Line.mem_unit.mpr hunit

end Branching

end GlobalQcqp
