import GlobalQcqp.Proofs.Interval.Inclusion
import GlobalQcqp.Proofs.Ranges
/-!
# Interval evaluation on parts of a box

Term by term, interval evaluation on a part of a box gives an interval within the one for the box,
and at a single point it gives the value there.
-/

namespace GlobalQcqp.Quadratic

variable {n : Nat} (q : Quadratic ℝ n) {part sides : Vector (Interval ℝ) n} {x : Vector ℝ n}

theorem rowRange_le (hpart : ∀ i : Fin n, part[i].lo ≤ part[i].hi)
    (hle : ∀ i : Fin n, part[i] ≤ sides[i]) (s : Finset (Fin n)) (i : Fin n) :
    q.rowRange part s i ≤ q.rowRange sides s i := by
  have hsquare : part[i].square.scale (1 / 2 * q.hessian[i][i]) ≤
      sides[i].square.scale (1 / 2 * q.hessian[i][i]) :=
    Interval.scale_le_scale (Interval.square_spans (hpart i)).lo_le_hi
      (Interval.square_le_square (hpart i) (hle i)) _
  have hlinear : part[i].scale q.linear[i] ≤ sides[i].scale q.linear[i] :=
    Interval.scale_le_scale (hpart i) (hle i) _
  have hproducts : ∑ j ∈ s with i < j, (part[i].mul part[j]).scale q.hessian[i][j] ≤
      ∑ j ∈ s with i < j, (sides[i].mul sides[j]).scale q.hessian[i][j] := by
    apply Finset.sum_le_sum
    intro j _
    exact Interval.scale_le_scale (Interval.mul_spans (hpart i) (hpart j)).lo_le_hi
      (Interval.mul_le_mul_of_le (hpart i) (hpart j) (hle i) (hle j)) _
  exact add_le_add (add_le_add hsquare hlinear) hproducts

theorem rangeOver_le (hpart : ∀ i : Fin n, part[i].lo ≤ part[i].hi)
    (hle : ∀ i : Fin n, part[i] ≤ sides[i]) (s : Finset (Fin n)) :
    q.rangeOver part s ≤ q.rangeOver sides s :=
  Finset.sum_le_sum fun i _ ↦ q.rowRange_le hpart hle s i

theorem interval_le (hpart : ∀ i : Fin n, part[i].lo ≤ part[i].hi)
    (hle : ∀ i : Fin n, part[i] ≤ sides[i]) : q.interval part ≤ q.interval sides := by
  rw [interval_eq, interval_eq]
  exact add_le_add le_rfl (q.rangeOver_le hpart hle _)

theorem rangeOver_singleton (hx : ∀ i : Fin n, sides[i] = Interval.singleton x[i])
    (s : Finset (Fin n)) : q.rangeOver sides s = Interval.singleton (q.termsOver s x) := by
  rw [termsOver_eq_sum_rows, ← Interval.singleton_finsetSum]
  apply Finset.sum_congr rfl
  intro i _
  simp only [rowRange, hx, Interval.square_singleton, Interval.mul_singleton,
    Interval.scale_singleton, Interval.singleton_finsetSum, Interval.singleton_add]

theorem interval_singleton (hx : ∀ i : Fin n, sides[i] = Interval.singleton x[i]) :
    q.interval sides = Interval.singleton (q.eval x) := by
  rw [interval_eq, q.rangeOver_singleton hx, Interval.singleton_add, ← eval_eq_termsOver]

/-- Whatever the matrix, interval evaluation encloses the quadratic on a box, shrinks with the box,
and is exact where the box is a single point. -/
theorem interval_encloses_shrinks_exact (M : SquareMatrix ℝ n) (v : Vector ℝ n) (k : ℝ)
    (box : Box ℝ n) :
    let f := ofMatrix M v k
    (∀ x ∈ box, f.eval x ∈ f.interval box.sides ∧
      f.eval x = 1 / 2 * ∑ i : Fin n, ∑ j : Fin n, M[i][j] * (x[i] * x[j]) +
        ∑ i : Fin n, v[i] * x[i] + k) ∧
      (∀ part : Box ℝ n, part.IsProper → part ≤ box →
        f.interval part.sides ≤ f.interval box.sides) ∧
      (box.lower = box.upper →
        f.interval box.sides = ⟨f.eval box.lower, f.eval box.lower⟩) := by
  intro f
  refine ⟨?_, ?_, ?_⟩
  · intro x hx
    refine ⟨f.eval_mem_interval box.sides fun i ↦ ?_, eval_ofMatrix M v k x⟩
    rw [getElem_fin, getElem_fin, Box.getElem_sides]
    exact hx i
  · intro part hpart hle
    apply interval_le
    · intro i
      rw [getElem_fin, Box.getElem_sides]
      exact hpart i
    · intro i
      rw [getElem_fin, getElem_fin, Box.getElem_sides, Box.getElem_sides]
      exact hle i
  · intro hpoint
    apply interval_singleton
    intro i
    rw [getElem_fin, Box.getElem_sides, Box.side, ← hpoint]
    rfl

/-- The product of two coordinates, given by a matrix that is not symmetric, on a square and on a
quarter of it. -/
theorem interval_product_encloses :
    let product : Quadratic ℝ 2 := ofMatrix #v[#v[0, 2], #v[0, 0]] #v[0, 0] 0
    let square : Box ℝ 2 := ⟨#v[-1, -1], #v[1, 1]⟩
    let quarter : Box ℝ 2 := ⟨#v[0, 0], #v[1, 1]⟩
    #v[1, -1] ∈ square ∧ product.eval #v[1, -1] = -1 ∧
      product.eval #v[1, -1] ∈ product.interval square.sides ∧
      quarter.IsProper ∧ quarter ≤ square ∧
      product.interval quarter.sides ≤ product.interval square.sides := by
  intro product square quarter
  obtain ⟨hencloses, hshrinks, -⟩ :=
    interval_encloses_shrinks_exact #v[#v[0, 2], #v[0, 0]] #v[0, 0] 0 square
  have hcorner : (#v[1, -1] : Vector ℝ 2) ∈ square := by
    intro i
    fin_cases i <;> norm_num [square, Box.side, Interval.mem_iff]
  have hproper : quarter.IsProper := by
    intro i
    fin_cases i <;> norm_num [quarter, Box.side]
  have hle : quarter ≤ square := by
    intro i
    fin_cases i <;> norm_num [quarter, square, Box.side, Interval.le_iff]
  obtain ⟨hmem, hvalue⟩ := hencloses _ hcorner
  refine ⟨hcorner, hvalue.trans ?_, hmem, hproper, hle, hshrinks quarter hproper hle⟩
  simp [Fin.sum_univ_two]

end GlobalQcqp.Quadratic
