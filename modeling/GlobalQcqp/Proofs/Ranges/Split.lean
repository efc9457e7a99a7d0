import GlobalQcqp.Proofs.Interval.Inclusion
import GlobalQcqp.Proofs.Ranges
import GlobalQcqp.Proofs.Tightening.Support
/-!
# Ranges at one variable

The interval of a quadratic is the sum of the ranges of the terms in which a variable occurs and of
the range of the rest.  The split keeps the terms with the variable together, so it is at least as
sharp: no choice of its coefficients gives a value below the interval.  The range of the slope is
exact, because each of the other variables occurs in it once.
-/

namespace GlobalQcqp.Quadratic

variable {n : Nat} (q : Quadratic ℝ n) {sides : Vector (Interval ℝ) n}

/-! ## The slope -/

theorem getElem_gradient (x : Vector ℝ n) (i : Fin n) :
    (q.gradient x)[i] = q.hessian[i][i] * x[i] + q.slopeAt i x := by
  rw [getElem_gradient_eq_sum, slopeAt, Fintype.sum_eq_add_sum_compl i]
  ring

theorem exists_slopeAt_eq (i : Fin n) {v : Fin n → ℝ}
    (hv : ∀ j, v j ∈ (q.hessian[i][j] * ·) '' {t | t ∈ sides[j]}) :
    ∃ x ∈ Box.ofSides sides, q.slopeAt i x = q.linear[i] + ∑ j ∈ {i}ᶜ, v j := by
  choose t ht hvalue using hv
  have hget (j : Fin n) : (Vector.ofFn t)[j] = t j := by
    simp only [getElem_fin, Vector.getElem_ofFn]
  refine ⟨Vector.ofFn t, ?_, ?_⟩
  · rw [Box.mem_ofSides_iff]
    intro j
    rw [hget]
    exact ht j
  · rw [slopeAt]
    congr 1
    apply Finset.sum_congr rfl
    intro j _
    rw [hget, ← hvalue j]

/-- The range of the slope is exact. -/
theorem splitAt_linear_spans (hsides : (Box.ofSides sides).IsProper) (i : Fin n) :
    (q.splitAt sides i).linear.Spans (q.slopeAt i '' {x | x ∈ Box.ofSides sides}) := by
  have hspans (j : Fin n) :=
    Interval.scale_spans (Box.isProper_ofSides_iff.mp hsides j) q.hessian[i][j]
  apply Interval.spans_of_mem
  · obtain ⟨x, hx, hslope⟩ := q.exists_slopeAt_eq i fun j ↦ (hspans j).1.1
    refine ⟨x, hx, hslope.trans ?_⟩
    rw [splitAt_linear, ← Interval.lo_finsetSum]
    rfl
  · obtain ⟨x, hx, hslope⟩ := q.exists_slopeAt_eq i fun j ↦ (hspans j).2.1
    refine ⟨x, hx, hslope.trans ?_⟩
    rw [splitAt_linear, ← Interval.hi_finsetSum]
    rfl
  · rintro _ ⟨x, hx, rfl⟩
    apply slopeAt_mem_linear
    intro j _
    exact Box.mem_ofSides_iff.mp hx j

theorem splitAt_isProper (hsides : (Box.ofSides sides).IsProper) (i : Fin n) :
    (q.splitAt sides i).IsProper := by
  have hmid := Box.mem_ofSides_iff.mp (Box.midpoint_mem hsides)
  have hslope := q.slopeAt_mem_linear sides (i := i) fun j _ ↦ hmid j
  have hrest := q.termsOver_mem_rest sides (i := i) fun j _ ↦ hmid j
  exact ⟨hslope.1.trans hslope.2, hrest.1.trans hrest.2⟩

theorem splitAt_square (i : Fin n) : (q.splitAt sides i).square = 1 / 2 * q.hessian[i][i] := by
  have hhalf : (0.5 : ℝ) = 1 / 2 := by norm_num
  rw [splitAt, hhalf]

/-- A split is constant if no term with the variable is left anywhere in the box. -/
theorem isConstant_splitAt_iff (hsides : (Box.ofSides sides).IsProper) (i : Fin n) :
    (q.splitAt sides i).isConstant = true ↔
      q.hessian[i][i] = 0 ∧ ∀ x ∈ Box.ofSides sides, (q.gradient x)[i] = 0 := by
  have hspans := q.splitAt_linear_spans hsides i
  have hends : (q.splitAt sides i).isConstant = true ↔ q.hessian[i][i] = 0 ∧
      (q.splitAt sides i).linear.lo = 0 ∧ (q.splitAt sides i).linear.hi = 0 := by
    simp [Split.isConstant, splitAt_square, and_assoc]
  rw [hends]
  constructor
  · rintro ⟨hdiagonal, hlo, hhi⟩
    refine ⟨hdiagonal, fun x hx ↦ ?_⟩
    have hmem := hspans.mem ⟨x, hx, rfl⟩
    have hzero : q.slopeAt i x = 0 := le_antisymm (hmem.2.trans hhi.le) (hlo.ge.trans hmem.1)
    rw [getElem_gradient, hdiagonal, hzero, zero_mul, add_zero]
  · rintro ⟨hdiagonal, hgradient⟩
    have hzero (x : Vector ℝ n) (hx : x ∈ Box.ofSides sides) : q.slopeAt i x = 0 := by
      have hi := hgradient x hx
      rwa [getElem_gradient, hdiagonal, zero_mul, zero_add] at hi
    obtain ⟨x, hx, hlo⟩ := hspans.1.1
    obtain ⟨y, hy, hhi⟩ := hspans.2.1
    exact ⟨hdiagonal, hlo.symm.trans (hzero x hx), hhi.symm.trans (hzero y hy)⟩

/-! ## The whole interval -/

/-- The ranges of the terms with variable `i` apart from its square. -/
noncomputable def crossRange (sides : Vector (Interval ℝ) n) (i : Fin n) : Interval ℝ :=
  sides[i].scale q.linear[i] + ∑ j ∈ {i}ᶜ, (sides[i].mul sides[j]).scale q.hessian[i][j]

theorem interval_eq_add_rest (i : Fin n) : q.interval sides =
    sides[i].square.scale (1 / 2 * q.hessian[i][i]) + q.crossRange sides i +
      (q.splitAt sides i).rest := by
  have hsymm (j k : Fin n) : (sides[j].mul sides[k]).scale q.hessian[j][k] =
      (sides[k].mul sides[j]).scale q.hessian[k][j] := by
    rw [sides[j].mul_swap, q.symmetric j k]
  rw [interval_eq, splitAt_rest]
  simp only [rangeOver, rowRange, Finset.sum_add_distrib]
  rw [sum_above_diagonal_eq _ hsymm i, Fintype.sum_eq_add_sum_compl i,
    Fintype.sum_eq_add_sum_compl i, crossRange]
  abel

/-- The slope times the variable is in the range of the terms with the variable. -/
theorem slopeAt_mul_mem_crossRange {x : Vector ℝ n} (hx : x ∈ Box.ofSides sides) {i : Fin n} {t : ℝ}
    (ht : t ∈ sides[i]) : q.slopeAt i x * t ∈ q.crossRange sides i := by
  have hsides := Box.mem_ofSides_iff.mp hx
  rw [slopeAt_mul]
  apply Interval.mem_add (Interval.mem_scale ht _)
  apply Interval.mem_finsetSum
  intro j _
  exact Interval.mem_scale (Interval.mem_mul ht (hsides j)) _

/-- No choice of coefficients of a split gives a value below the interval of the quadratic. -/
theorem lo_interval_le (hsides : (Box.ofSides sides).IsProper) {i : Fin n} {t b r : ℝ}
    (ht : t ∈ sides[i]) (hb : b ∈ (q.splitAt sides i).linear) (hr : r ∈ (q.splitAt sides i).rest) :
    (q.interval sides).lo ≤ (q.splitAt sides i).square * (t * t) + b * t + r := by
  have hspans := q.splitAt_linear_spans hsides i
  -- The slope that is worst for `t` is one at a point of the box.
  have hslope : ∃ x ∈ Box.ofSides sides, q.slopeAt i x * t ≤ b * t := by
    rcases le_total 0 t with hpos | hneg
    · obtain ⟨x, hx, hlo⟩ := hspans.1.1
      exact ⟨x, hx, mul_le_mul_of_nonneg_right (hlo.trans_le hb.1) hpos⟩
    · obtain ⟨x, hx, hhi⟩ := hspans.2.1
      exact ⟨x, hx, mul_le_mul_of_nonpos_right (hb.2.trans hhi.ge) hneg⟩
  obtain ⟨x, hx, hle⟩ := hslope
  have hsquare := (Interval.mem_scale (Interval.mem_square ht) (1 / 2 * q.hessian[i][i])).1
  have hcross := (q.slopeAt_mul_mem_crossRange hx ht).1
  have hrest := hr.1
  have hsum : (q.interval sides).lo =
      (sides[i].square.scale (1 / 2 * q.hessian[i][i])).lo + (q.crossRange sides i).lo +
        (q.splitAt sides i).rest.lo :=
    congrArg Interval.lo (q.interval_eq_add_rest i)
  rw [hsum, splitAt_square]
  linarith

end GlobalQcqp.Quadratic
