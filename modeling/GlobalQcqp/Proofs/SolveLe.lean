import GlobalQcqp.Proofs.Interval.Hull
/-!
# One quadratic inequality

Completing the square turns `a * x^2 + b * x + r ≤ 0` into a comparison of `2 * a * x + b` with the
root of the discriminant.  The two roots are where they agree in absolute value, so the inequality
holds between them for positive `a` and outside of them for negative `a`.

The answer for a domain is the hull of the solutions in it.  Outside the roots these may lie in two
pieces, and the hull then has points between the pieces that are no solutions.
-/

namespace GlobalQcqp.Interval

variable {a b r sq x : ℝ}

theorem roots_of_pos (ha : 0 < a) (hsq : 0 ≤ sq) :
    roots a b sq = ⟨(-b - sq) / (2 * a), (-b + sq) / (2 * a)⟩ := by
  have hle : (-b - sq) / (2 * a) ≤ (-b + sq) / (2 * a) := by
    gcongr
    linarith
  have htwo : (2.0 : ℝ) = 2 := by norm_num
  simp only [roots, htwo, if_neg (not_lt.mpr hle)]

theorem roots_of_neg (ha : a < 0) (hsq : 0 ≤ sq) :
    roots a b sq = ⟨(-b + sq) / (2 * a), (-b - sq) / (2 * a)⟩ := by
  have hle : (-b + sq) / (2 * a) ≤ (-b - sq) / (2 * a) :=
    div_le_div_of_nonpos_of_le (by linarith) (by linarith)
  have htwo : (2.0 : ℝ) = 2 := by norm_num
  simp only [roots, htwo]
  split
  · rfl
  · have heq := le_antisymm hle (not_lt.mp ‹_›)
    rw [heq]

/-- Between the roots the derivative is at most the root of the discriminant. -/
theorem mem_roots_iff (ha : a ≠ 0) (hsq : 0 ≤ sq) :
    x ∈ roots a b sq ↔ |2 * a * x + b| ≤ sq := by
  rw [abs_le]
  rcases ha.lt_or_gt with ha | ha
  · have h2a : 2 * a < 0 := by linarith
    rw [roots_of_neg ha hsq, mem_iff, div_le_iff_of_neg h2a, le_div_iff_of_neg h2a]
    constructor <;> rintro ⟨h1, h2⟩ <;> constructor <;> linarith
  · have h2a : 0 < 2 * a := by linarith
    rw [roots_of_pos ha hsq, mem_iff, div_le_iff₀ h2a, le_div_iff₀ h2a]
    constructor <;> rintro ⟨h1, h2⟩ <;> constructor <;> linarith

/-- Outside the roots the derivative is at least the root of the discriminant. -/
theorem outside_roots_iff (ha : a ≠ 0) (hsq : 0 ≤ sq) :
    x ≤ (roots a b sq).lo ∨ (roots a b sq).hi ≤ x ↔ sq ≤ |2 * a * x + b| := by
  rw [le_abs]
  rcases ha.lt_or_gt with ha | ha
  · have h2a : 2 * a < 0 := by linarith
    rw [roots_of_neg ha hsq, le_div_iff_of_neg h2a, div_le_iff_of_neg h2a]
    constructor <;> rintro (h | h) <;> first | (left; linarith) | (right; linarith)
  · have h2a : 0 < 2 * a := by linarith
    rw [roots_of_pos ha hsq, le_div_iff₀ h2a, div_le_iff₀ h2a]
    constructor <;> rintro (h | h) <;> first | (left; linarith) | (right; linarith)

theorem sq_derivative (a b r x : ℝ) :
    (2 * a * x + b) ^ 2 = 4 * a * (a * (x * x) + b * x + r) + (b * b - 4 * a * r) := by
  ring

theorem nonpos_iff_of_pos (ha : 0 < a) : a * (x * x) + b * x + r ≤ 0 ↔
    0 ≤ b * b - 4 * a * r ∧ |2 * a * x + b| ≤ √(b * b - 4 * a * r) := by
  have hsquare := sq_derivative a b r x
  constructor
  · intro hle
    have hdisc : (2 * a * x + b) ^ 2 ≤ b * b - 4 * a * r := by nlinarith
    exact ⟨(sq_nonneg _).trans hdisc, Real.abs_le_sqrt hdisc⟩
  · rintro ⟨hdisc, hle⟩
    have hsq : (2 * a * x + b) ^ 2 ≤ b * b - 4 * a * r := by
      rw [← sq_abs, ← Real.sq_sqrt hdisc]
      gcongr
    nlinarith

theorem nonpos_iff_of_neg (ha : a < 0) : a * (x * x) + b * x + r ≤ 0 ↔
    √(b * b - 4 * a * r) ≤ |2 * a * x + b| := by
  have hsquare := sq_derivative a b r x
  rw [Real.sqrt_le_left (abs_nonneg _), sq_abs]
  constructor
  · intro hle
    nlinarith
  · intro hdisc
    nlinarith

theorem nonpos_iff_of_linear_pos (hb : 0 < b) : 0 * (x * x) + b * x + r ≤ 0 ↔ x ≤ -r / b := by
  rw [le_div_iff₀ hb]
  constructor <;> intro h <;> linarith

theorem nonpos_iff_of_linear_neg (hb : b < 0) : 0 * (x * x) + b * x + r ≤ 0 ↔ -r / b ≤ x := by
  rw [div_le_iff_of_neg hb]
  constructor <;> intro h <;> linarith

/-! ## The hull of the solutions -/

/-- The solutions in a domain of `a * x^2 + b * x + r ≤ 0`. -/
def solutions (a b r : ℝ) (domain : Interval ℝ) : Set ℝ :=
  {x | x ∈ domain ∧ a * (x * x) + b * x + r ≤ 0}

/-- Without a square the solutions are one part of the domain. -/
theorem solveLe_zero_isHull {domain : Interval ℝ} (hdomain : domain.isEmpty = false) (b r : ℝ) :
    IsHull (solutions 0 b r domain) (solveLe 0 b r domain) := by
  simp only [solveLe, hdomain, Bool.false_eq_true, if_false, beq_iff_eq, if_true]
  rcases lt_trichotomy b 0 with hb | rfl | hb
  · rw [if_neg hb.ne, if_neg hb.not_gt]
    apply isHull_members
    intro x
    rw [mem_above, ← nonpos_iff_of_linear_neg hb]
    rfl
  · rw [if_pos rfl]
    have hconstant (x : ℝ) : 0 * (x * x) + 0 * x + r ≤ 0 ↔ r ≤ 0 := by
      rw [zero_mul, zero_mul, add_zero, zero_add]
    split
    · apply isHull_members
      intro x
      exact ⟨fun hx ↦ hx.1, fun hx ↦ ⟨hx, (hconstant x).mpr ‹r ≤ 0›⟩⟩
    · refine .missing (Set.eq_empty_of_forall_notMem fun x hx ↦ ?_)
      exact absurd ((hconstant x).mp hx.2) ‹¬ r ≤ 0›
  · rw [if_neg hb.ne', if_pos hb]
    apply isHull_members
    intro x
    rw [mem_below, ← nonpos_iff_of_linear_pos hb]
    rfl

/-- A parabola that opens upwards is at most zero between its roots, if it has any. -/
theorem solveLe_pos_isHull {domain : Interval ℝ} (hdomain : domain.isEmpty = false) (ha : 0 < a)
    (b r : ℝ) : IsHull (solutions a b r domain) (solveLe a b r domain) := by
  have hfour : (4.0 : ℝ) = 4 := by norm_num
  simp only [solveLe, hdomain, Bool.false_eq_true, if_false, hfour, Scalar.sqrt_real, beq_iff_eq]
  rw [if_neg ha.ne', if_pos ha]
  split
  · refine .missing (Set.eq_empty_of_forall_notMem fun x hx ↦ ?_)
    have hdisc := ((nonpos_iff_of_pos ha).mp hx.2).1
    exact hdisc.not_gt ‹_›
  · have hdisc : 0 ≤ b * b - 4 * a * r := not_lt.mp ‹_›
    apply isHull_members
    intro x
    rw [mem_inter, mem_roots_iff ha.ne' (Real.sqrt_nonneg _)]
    constructor
    · rintro ⟨hx, hle⟩
      exact ⟨hx, ((nonpos_iff_of_pos ha).mp hle).2⟩
    · rintro ⟨hx, hroots⟩
      exact ⟨hx, (nonpos_iff_of_pos ha).mpr ⟨hdisc, hroots⟩⟩

/-- A parabola that opens downwards is at most zero outside its roots, or everywhere. -/
theorem solveLe_neg_isHull {domain : Interval ℝ} (hdomain : domain.isEmpty = false) (ha : a < 0)
    (b r : ℝ) : IsHull (solutions a b r domain) (solveLe a b r domain) := by
  have hfour : (4.0 : ℝ) = 4 := by norm_num
  simp only [solveLe, hdomain, Bool.false_eq_true, if_false, hfour, Scalar.sqrt_real, beq_iff_eq]
  rw [if_neg ha.ne, if_neg ha.not_gt]
  split
  · have hroot : √(b * b - 4 * a * r) = 0 := Real.sqrt_eq_zero_of_nonpos (le_of_lt ‹_›)
    apply isHull_members
    intro x
    refine ⟨fun hx ↦ hx.1, fun hx ↦ ⟨hx, (nonpos_iff_of_neg ha).mpr ?_⟩⟩
    rw [hroot]
    exact abs_nonneg _
  · apply isHull_hull_members
    intro x
    simp only [List.mem_cons, List.not_mem_nil, or_false, exists_eq_or_imp, exists_eq_left,
      mem_below, mem_above, ← and_or_left]
    rw [outside_roots_iff ha.ne (Real.sqrt_nonneg _), ← nonpos_iff_of_neg ha]
    rfl

theorem solveLe_isHull (a b r : ℝ) (domain : Interval ℝ) :
    IsHull (solutions a b r domain) (solveLe a b r domain) := by
  cases hdomain : domain.isEmpty with
  | true =>
      have hnone : solveLe a b r domain = none := by simp only [solveLe, hdomain, if_true]
      rw [hnone]
      refine .missing (Set.eq_empty_of_forall_notMem fun x hx ↦ ?_)
      exact isEmpty_eq_true_iff.mp hdomain x hx.1
  | false =>
      rcases lt_trichotomy a 0 with ha | rfl | ha
      · exact solveLe_neg_isHull hdomain ha b r
      · exact solveLe_zero_isHull hdomain b r
      · exact solveLe_pos_isHull hdomain ha b r

/-- The solution of a quadratic inequality on a domain, crossed or not, holds no point exactly if
the inequality has no solution there.  Otherwise its ends are the least and the greatest one. -/
theorem solveLe_spans_solutions (a b r : ℝ) (domain : Interval ℝ) :
    let S := {x | x ∈ domain ∧ a * x ^ 2 + b * x + r ≤ 0}
    ((∀ s ∈ solveLe a b r domain, s.isEmpty = true) ↔ S = ∅) ∧
      (S.Nonempty → ∃ s, solveLe a b r domain = some s ∧ IsLeast S s.lo ∧ IsGreatest S s.hi) := by
  intro S
  have hS : S = solutions a b r domain := by
    simp only [S, solutions, sq]
  rw [hS]
  exact ⟨(solveLe_isHull a b r domain).isEmpty_iff, (solveLe_isHull a b r domain).exists_spans⟩

/-- Where `1 - x^2` is at most zero lies on both sides of zero, and the hull reaches across. -/
theorem solveLe_across_gap :
    let S := {x | x ∈ (⟨-2, 3⟩ : Interval ℝ) ∧ -1 * x ^ 2 + 0 * x + 1 ≤ 0}
    S.Nonempty ∧ 0 ∉ S ∧ ∃ s, solveLe (-1 : ℝ) 0 1 ⟨-2, 3⟩ = some s ∧ s.lo = -2 ∧ s.hi = 3 := by
  intro S
  have hleast : IsLeast S (-2) := by
    refine ⟨⟨⟨le_rfl, ?_⟩, ?_⟩, fun x hx ↦ hx.1.1⟩ <;> norm_num
  have hgreatest : IsGreatest S 3 := by
    refine ⟨⟨⟨?_, le_rfl⟩, ?_⟩, fun x hx ↦ hx.1.2⟩ <;> norm_num
  obtain ⟨s, hs, hlo, hhi⟩ := (solveLe_spans_solutions (-1) 0 1 ⟨-2, 3⟩).2 ⟨-2, hleast.1⟩
  refine ⟨⟨-2, hleast.1⟩, ?_, s, hs, hlo.unique hleast, hhi.unique hgreatest⟩
  rintro ⟨_, hle⟩
  norm_num at hle

end GlobalQcqp.Interval
