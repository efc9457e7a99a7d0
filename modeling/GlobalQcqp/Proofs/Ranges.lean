import GlobalQcqp.Proofs.Interval
import GlobalQcqp.Proofs.Quadratic
import GlobalQcqp.Tightening.Feasibility
/-!
# Ranges of a quadratic

The terms in which only the variables of a set occur are added up row by row, each row from the
diagonal to the right, and so are their ranges over the sides of a box.  Interval evaluation takes
all variables; the split at a variable takes all others, and keeps the terms in which it occurs once
apart.
-/

namespace GlobalQcqp.Quadratic

variable {n : Nat} (q : Quadratic ℝ n) (sides : Vector (Interval ℝ) n)

/-- The terms in which only variables of a set occur. -/
noncomputable def termsOver (s : Finset (Fin n)) (x : Vector ℝ n) : ℝ :=
  1 / 2 * ∑ i ∈ s, ∑ j ∈ s, q.hessian[i][j] * (x[i] * x[j]) + ∑ i ∈ s, q.linear[i] * x[i]

/-- The ranges of the terms that row `i` contributes to a set. -/
noncomputable def rowRange (s : Finset (Fin n)) (i : Fin n) : Interval ℝ :=
  sides[i].square.scale (1 / 2 * q.hessian[i][i]) + sides[i].scale q.linear[i] +
    ∑ j ∈ s with i < j, (sides[i].mul sides[j]).scale q.hessian[i][j]

noncomputable def rangeOver (s : Finset (Fin n)) : Interval ℝ :=
  ∑ i ∈ s, q.rowRange sides s i

noncomputable def slopeAt (i : Fin n) (x : Vector ℝ n) : ℝ :=
  q.linear[i] + ∑ j ∈ {i}ᶜ, q.hessian[i][j] * x[j]

/-! ## Values -/

theorem eval_eq_termsOver (x : Vector ℝ n) : q.eval x = q.constant + q.termsOver Finset.univ x := by
  rw [eval_eq, termsOver]
  ring

theorem termsOver_eq_sum_rows (s : Finset (Fin n)) (x : Vector ℝ n) :
    q.termsOver s x = ∑ i ∈ s, (1 / 2 * q.hessian[i][i] * (x[i] * x[i]) + q.linear[i] * x[i] +
      ∑ j ∈ s with i < j, q.hessian[i][j] * (x[i] * x[j])) := by
  rw [termsOver, sum_sum_eq_diagonal_add s (fun i j ↦ q.hessian[i][j] * (x[i] * x[j]))
    fun i j ↦ by rw [q.symmetric i j, mul_comm x[i]], Finset.mul_sum, ← Finset.sum_add_distrib]
  refine Finset.sum_congr rfl fun i _ ↦ ?_
  ring

theorem slopeAt_mul (i : Fin n) (x : Vector ℝ n) (t : ℝ) :
    q.slopeAt i x * t = q.linear[i] * t + ∑ j ∈ {i}ᶜ, q.hessian[i][j] * (t * x[j]) := by
  rw [slopeAt, add_mul, Finset.sum_mul]
  congr 1
  apply Finset.sum_congr rfl
  intro j _
  ring

/-- The terms with variable `i` are its square and its product with the slope. -/
theorem termsOver_univ (i : Fin n) (x : Vector ℝ n) : q.termsOver Finset.univ x =
    1 / 2 * q.hessian[i][i] * (x[i] * x[i]) + q.slopeAt i x * x[i] + q.termsOver {i}ᶜ x := by
  have hsymm (j k : Fin n) :
      q.hessian[j][k] * (x[j] * x[k]) = q.hessian[k][j] * (x[k] * x[j]) := by
    rw [q.symmetric j k, mul_comm x[j]]
  rw [termsOver_eq_sum_rows, termsOver_eq_sum_rows, slopeAt_mul]
  simp only [Finset.sum_add_distrib]
  rw [sum_above_diagonal_eq _ hsymm i, Fintype.sum_eq_add_sum_compl i,
    Fintype.sum_eq_add_sum_compl i]
  ring

theorem eval_eq_split (i : Fin n) (x : Vector ℝ n) :
    q.eval x = 1 / 2 * q.hessian[i][i] * (x[i] * x[i]) + q.slopeAt i x * x[i] +
      (q.constant + q.termsOver {i}ᶜ x) := by
  rw [eval_eq_termsOver, termsOver_univ q i]
  ring

/-! ## Ranges -/

theorem mem_rangeOver {s : Finset (Fin n)} {x : Vector ℝ n} (hx : ∀ i ∈ s, x[i] ∈ sides[i]) :
    q.termsOver s x ∈ q.rangeOver sides s := by
  rw [termsOver_eq_sum_rows]
  refine Interval.mem_finsetSum s fun i hi ↦ ?_
  have hproducts : ∑ j ∈ s with i < j, q.hessian[i][j] * (x[i] * x[j]) ∈
      ∑ j ∈ s with i < j, (sides[i].mul sides[j]).scale q.hessian[i][j] := by
    refine Interval.mem_finsetSum _ fun j hj ↦ ?_
    exact Interval.mem_scale (Interval.mem_mul (hx i hi) (hx j (Finset.mem_filter.mp hj).1)) _
  exact Interval.mem_add
    (Interval.mem_add (Interval.mem_scale (Interval.mem_square (hx i hi)) _)
      (Interval.mem_scale (hx i hi) _))
    hproducts

/-- A term with coefficient zero is left out, which does not change the sum. -/
theorem sum_piece (a : Interval ℝ) (k : ℝ) :
    (if k == 0 then [] else [a.scale k] : List (Interval ℝ)).sum = a.scale k := by
  split
  · have hk : k = 0 := by simpa using ‹(k == 0) = true›
    rw [hk, Interval.scale_zero, List.sum_nil]
  · exact List.sum_singleton

theorem sum_diagonal_piece (a : Interval ℝ) (k : ℝ) :
    (if k == 0 then [] else [a.scale (0.5 * k)] : List (Interval ℝ)).sum = a.scale (1 / 2 * k) := by
  have hhalf : (0.5 : ℝ) = 1 / 2 := by norm_num
  rw [hhalf]
  split
  · have hk : k = 0 := by simpa using ‹(k == 0) = true›
    rw [hk, mul_zero, Interval.scale_zero, List.sum_nil]
  · exact List.sum_singleton

/-- The products to the right of the diagonal, those with coefficient zero left out. -/
theorem sum_product_pieces {s : Finset (Fin n)} {i : Fin n} {keeps : Fin n → Bool}
    (hkeeps : ∀ j, keeps j = true ↔ (i < j ∧ j ∈ s) ∧ q.hessian[i][j] ≠ 0) :
    (((List.finRange n).filter keeps).map fun j ↦
      (sides[i].mul sides[j]).scale q.hessian[i][j]).sum =
        ∑ j ∈ s with i < j, (sides[i].mul sides[j]).scale q.hessian[i][j] := by
  rw [sum_map_filter_finRange]
  refine Finset.sum_subset ?_ ?_
  · intro j hj
    have hj := (hkeeps j).mp (Finset.mem_filter.mp hj).2
    exact Finset.mem_filter.mpr ⟨hj.1.2, hj.1.1⟩
  · intro j hj hdropped
    have hj := Finset.mem_filter.mp hj
    have hzero : q.hessian[i][j] = 0 := by
      by_contra hne
      exact hdropped (Finset.mem_filter.mpr
        ⟨Finset.mem_univ j, (hkeeps j).mpr ⟨⟨hj.2, hj.1⟩, hne⟩⟩)
    rw [hzero, Interval.scale_zero]

theorem sum_rowRanges (i : Fin n) :
    (q.rowRanges sides i).sum = q.rowRange sides Finset.univ i := by
  rw [rowRanges, List.sum_append, List.sum_append, sum_diagonal_piece, sum_piece,
    q.sum_product_pieces sides (s := Finset.univ) fun j ↦ by simp]
  rfl

theorem sum_restRanges (i j : Fin n) :
    (q.restRanges sides i j).sum = q.rowRange sides {i}ᶜ j := by
  rw [restRanges, List.sum_append, List.sum_append, sum_diagonal_piece, sum_piece,
    q.sum_product_pieces sides (s := {i}ᶜ) fun k ↦ by simp]
  rfl

theorem interval_eq : q.interval sides =
    Interval.singleton q.constant + q.rangeOver sides Finset.univ := by
  rw [interval, Interval.sum_eq_add_sum, sum_flatMap]
  simp only [sum_rowRanges]
  rw [rangeOver, Fin.sum_univ_def]

theorem filter_ne_eq_compl (i : Fin n) :
    (Finset.univ.filter fun j ↦ (j != i) = true) = ({i}ᶜ : Finset (Fin n)) := by
  ext j
  simp

theorem splitAt_linear (i : Fin n) : (q.splitAt sides i).linear =
    Interval.singleton q.linear[i] + ∑ j ∈ {i}ᶜ, sides[j].scale q.hessian[i][j] := by
  have hpieces : ((((List.finRange n).filter (· != i)).filter fun j ↦ q.hessian[i][j] != 0).map
      fun j ↦ sides[j].scale q.hessian[i][j]).sum = ∑ j ∈ {i}ᶜ, sides[j].scale q.hessian[i][j] := by
    rw [List.filter_filter, sum_map_filter_finRange, ← filter_ne_eq_compl i]
    refine Finset.sum_subset ?_ ?_
    · intro j hj
      simp_all
    · intro j hj hdropped
      have hzero : q.hessian[i][j] = 0 := by
        by_contra hne
        simp_all
      rw [hzero, Interval.scale_zero]
  rw [splitAt, Interval.sum_eq_add_sum, hpieces]

theorem splitAt_rest (i : Fin n) : (q.splitAt sides i).rest =
    Interval.singleton q.constant + q.rangeOver sides {i}ᶜ := by
  simp only [splitAt, Interval.sum_eq_add_sum, sum_flatMap, sum_restRanges]
  rw [sum_map_filter_finRange, filter_ne_eq_compl, rangeOver]

/-! ## Enclosure -/

/-- Interval evaluation encloses the quadratic on the box. -/
theorem eval_mem_interval {x : Vector ℝ n} (hx : ∀ i : Fin n, x[i] ∈ sides[i]) :
    q.eval x ∈ q.interval sides := by
  rw [eval_eq_termsOver, interval_eq]
  exact Interval.mem_add (Interval.mem_singleton.mpr rfl) (q.mem_rangeOver sides fun i _ ↦ hx i)

theorem slopeAt_mem_linear {i : Fin n} {x : Vector ℝ n}
    (hx : ∀ j : Fin n, j ≠ i → x[j] ∈ sides[j]) :
    q.slopeAt i x ∈ (q.splitAt sides i).linear := by
  rw [splitAt_linear, slopeAt]
  refine Interval.mem_add (Interval.mem_singleton.mpr rfl) (Interval.mem_finsetSum _ fun j hj ↦ ?_)
  exact Interval.mem_scale (hx j (by simpa using hj)) _

theorem termsOver_mem_rest {i : Fin n} {x : Vector ℝ n}
    (hx : ∀ j : Fin n, j ≠ i → x[j] ∈ sides[j]) :
    q.constant + q.termsOver {i}ᶜ x ∈ (q.splitAt sides i).rest := by
  rw [splitAt_rest]
  exact Interval.mem_add (Interval.mem_singleton.mpr rfl)
    (q.mem_rangeOver sides fun j hj ↦ hx j (by simpa using hj))

end GlobalQcqp.Quadratic
