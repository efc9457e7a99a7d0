import GlobalQcqp.Proofs.SolveLe
import GlobalQcqp.Tightening.Feasibility
/-!
# Supported values

A value of a variable is supported by a split if some slope and some rest from their ranges make the
quadratic at most the tolerance there.  The rest is best at its lower end.  Where the variable is
negative the largest slope gives the least value, on the other side of zero the smallest slope does.
So the supported values are the solutions of two inequalities, one on each side of zero, and solving
a split returns their hull.
-/

namespace GlobalQcqp.Split

/-- The values on a side at which some choice of coefficients gives at most `tol`. -/
def support (s : Split ℝ) (tol : ℝ) (side : Interval ℝ) : Set ℝ :=
  {t | t ∈ side ∧ ∃ b ∈ s.linear, ∃ r ∈ s.rest, s.square * (t * t) + b * t + r ≤ tol}

/-- Both coefficients have a value. -/
structure IsProper (s : Split ℝ) : Prop where
  linear : s.linear.lo ≤ s.linear.hi
  rest : s.rest.lo ≤ s.rest.hi

variable {s : Split ℝ} {tol t : ℝ} {side : Interval ℝ}

theorem support_eq_union (hs : s.IsProper) (tol : ℝ) (side : Interval ℝ) :
    s.support tol side =
      Interval.solutions s.square s.linear.hi (s.rest.lo - tol) (side.below 0) ∪
        Interval.solutions s.square s.linear.lo (s.rest.lo - tol) (side.above 0) := by
  ext t
  constructor
  · rintro ⟨hside, b, hb, r, hr, hle⟩
    have hlow := hr.1
    rcases le_total t 0 with hneg | hpos
    · have hslope : s.linear.hi * t ≤ b * t := mul_le_mul_of_nonpos_right hb.2 hneg
      exact Or.inl ⟨Interval.mem_below.mpr ⟨hside, hneg⟩, by linarith⟩
    · have hslope : s.linear.lo * t ≤ b * t := mul_le_mul_of_nonneg_right hb.1 hpos
      exact Or.inr ⟨Interval.mem_above.mpr ⟨hside, hpos⟩, by linarith⟩
  · rintro (⟨hside, hle⟩ | ⟨hside, hle⟩)
    · refine ⟨(Interval.mem_below.mp hside).1, s.linear.hi, Interval.hi_mem hs.linear,
        s.rest.lo, Interval.lo_mem hs.rest, ?_⟩
      linarith
    · refine ⟨(Interval.mem_above.mp hside).1, s.linear.lo, Interval.lo_mem hs.linear,
        s.rest.lo, Interval.lo_mem hs.rest, ?_⟩
      linarith

/-- Solving a split gives the hull of the supported values. -/
theorem solve_isHull (hs : s.IsProper) (tol : ℝ) (side : Interval ℝ) :
    Interval.IsHull (s.support tol side) (s.solve tol side) := by
  rw [support_eq_union hs]
  apply Interval.IsHull.union
  · exact Interval.solveLe_isHull _ _ _ _
  · exact Interval.solveLe_isHull _ _ _ _

theorem solve_spans (hs : s.IsProper) {hull : Interval ℝ}
    (hsolve : s.solve tol side = some hull) : hull.Spans (s.support tol side) :=
  (solve_isHull hs tol side).spans_of_isEmpty_eq_false hsolve
    (Interval.isEmpty_hull hsolve)

theorem solve_eq_none_iff (hs : s.IsProper) :
    s.solve tol side = none ↔ s.support tol side = ∅ := by
  rw [← (solve_isHull hs tol side).isEmpty_iff]
  constructor
  · intro hnone a ha
    rw [hnone] at ha
    cases ha
  · intro hempty
    cases hsolve : s.solve tol side with
    | none => rfl
    | some hull => cases (hempty hull hsolve).symm.trans (Interval.isEmpty_hull hsolve)

/-- Some choice of coefficients at most `tol` keeps the value in the solution. -/
theorem mem_solve {b r : ℝ} (ht : t ∈ side) (hb : b ∈ s.linear) (hr : r ∈ s.rest)
    (hle : s.square * (t * t) + b * t + r ≤ tol) :
    ∃ hull, s.solve tol side = some hull ∧ t ∈ hull := by
  have hhull := solve_isHull ⟨hb.1.trans hb.2, hr.1.trans hr.2⟩ tol side
  exact hhull.exists_mem ⟨ht, b, hb, r, hr, hle⟩

end GlobalQcqp.Split
