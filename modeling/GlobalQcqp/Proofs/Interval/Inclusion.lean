import GlobalQcqp.Proofs.Box
import GlobalQcqp.Proofs.Interval.Hull
/-!
# Inclusion of intervals

The ends of a multiple, a square or a product of intervals are values at members.  So each of these
operations gives the exact range of the operation on numbers: smaller operands give a smaller
interval, and single numbers give a single number.
-/

namespace GlobalQcqp.Interval

variable {a b c d : Interval ℝ}

theorem Spans.le {S : Set ℝ} (h : a.Spans S) (hb : ∀ x ∈ S, x ∈ b) : a ≤ b :=
  ⟨(hb a.lo h.1.1).1, (hb a.hi h.2.1).2⟩

theorem inter_eq_right (hab : a ≤ b) : b.inter a = a := by
  apply ext
  · simp only [inter, Scalar.max_real]
    exact max_eq_right hab.1
  · simp only [inter, Scalar.min_real]
    exact min_eq_right hab.2

/-! ## Exact ranges -/

theorem scale_spans (ha : a.lo ≤ a.hi) (k : ℝ) : (a.scale k).Spans ((k * ·) '' {x | x ∈ a}) := by
  have hlo : k * a.lo ∈ (k * ·) '' {x | x ∈ a} := ⟨a.lo, lo_mem ha, rfl⟩
  have hhi : k * a.hi ∈ (k * ·) '' {x | x ∈ a} := ⟨a.hi, hi_mem ha, rfl⟩
  have hencloses : ∀ y ∈ (k * ·) '' {x | x ∈ a}, y ∈ a.scale k := by
    rintro _ ⟨x, hx, rfl⟩
    exact mem_scale hx k
  by_cases hk : 0 ≤ k
  · apply spans_of_mem _ _ hencloses
    · simpa only [scale, if_pos hk] using hlo
    · simpa only [scale, if_pos hk] using hhi
  · apply spans_of_mem _ _ hencloses
    · simpa only [scale, if_neg hk] using hhi
    · simpa only [scale, if_neg hk] using hlo

theorem square_spans (ha : a.lo ≤ a.hi) : a.square.Spans ((fun x ↦ x * x) '' {x | x ∈ a}) := by
  have hlo : a.lo * a.lo ∈ (fun x ↦ x * x) '' {x | x ∈ a} := ⟨a.lo, lo_mem ha, rfl⟩
  have hhi : a.hi * a.hi ∈ (fun x ↦ x * x) '' {x | x ∈ a} := ⟨a.hi, hi_mem ha, rfl⟩
  have hencloses : ∀ y ∈ (fun x ↦ x * x) '' {x | x ∈ a}, y ∈ a.square := by
    rintro _ ⟨x, hx, rfl⟩
    exact mem_square hx
  by_cases hpos : 0 ≤ a.lo
  · apply spans_of_mem _ _ hencloses
    · simpa only [square, if_pos hpos] using hlo
    · simpa only [square, if_pos hpos] using hhi
  by_cases hneg : a.hi ≤ 0
  · apply spans_of_mem _ _ hencloses
    · simpa only [square, if_neg hpos, if_pos hneg] using hhi
    · simpa only [square, if_neg hpos, if_pos hneg] using hlo
  · apply spans_of_mem _ _ hencloses
    · refine ⟨0, ⟨(not_le.mp hpos).le, (not_le.mp hneg).le⟩, ?_⟩
      simp only [square, if_neg hpos, if_neg hneg, mul_zero]
    · simp only [square, if_neg hpos, if_neg hneg, Scalar.max_real]
      exact max_rec' (· ∈ (fun x ↦ x * x) '' {x | x ∈ a}) hlo hhi

theorem mul_spans (ha : a.lo ≤ a.hi) (hb : b.lo ≤ b.hi) :
    (a.mul b).Spans (Set.image2 (· * ·) {x | x ∈ a} {y | y ∈ b}) := by
  let S := Set.image2 (· * ·) {x | x ∈ a} {y | y ∈ b}
  have product {x y : ℝ} (hx : x ∈ a) (hy : y ∈ b) : x * y ∈ S := ⟨x, hx, y, hy, rfl⟩
  apply spans_of_mem
  · simp only [mul, Scalar.min_real]
    apply min_rec' (· ∈ S)
    · apply min_rec' (· ∈ S)
      · exact min_rec' (· ∈ S) (product (lo_mem ha) (lo_mem hb)) (product (lo_mem ha) (hi_mem hb))
      · exact product (hi_mem ha) (lo_mem hb)
    · exact product (hi_mem ha) (hi_mem hb)
  · simp only [mul, Scalar.max_real]
    apply max_rec' (· ∈ S)
    · apply max_rec' (· ∈ S)
      · exact max_rec' (· ∈ S) (product (lo_mem ha) (lo_mem hb)) (product (lo_mem ha) (hi_mem hb))
      · exact product (hi_mem ha) (lo_mem hb)
    · exact product (hi_mem ha) (hi_mem hb)
  · rintro _ ⟨x, hx, y, hy, rfl⟩
    exact mem_mul hx hy

theorem mul_swap (a b : Interval ℝ) : a.mul b = b.mul a := by
  apply ext
  · simp only [mul, Scalar.min_real, mul_comm b.lo, mul_comm b.hi]
    rw [min_right_comm (a.lo * b.lo)]
  · simp only [mul, Scalar.max_real, mul_comm b.lo, mul_comm b.hi]
    rw [max_right_comm (a.lo * b.lo)]

/-! ## Smaller operands -/

instance : AddLeftMono (Interval ℝ) :=
  ⟨fun _ _ _ h ↦ ⟨add_le_add_right h.1 _, add_le_add_right h.2 _⟩⟩

theorem scale_le_scale (ha : a.lo ≤ a.hi) (hab : a ≤ b) (k : ℝ) : a.scale k ≤ b.scale k := by
  apply (scale_spans ha k).le
  rintro _ ⟨x, hx, rfl⟩
  exact mem_scale (mem_of_le hab hx) k

theorem square_le_square (ha : a.lo ≤ a.hi) (hab : a ≤ b) : a.square ≤ b.square := by
  apply (square_spans ha).le
  rintro _ ⟨x, hx, rfl⟩
  exact mem_square (mem_of_le hab hx)

theorem mul_le_mul_of_le (ha : a.lo ≤ a.hi) (hb : b.lo ≤ b.hi) (hac : a ≤ c) (hbd : b ≤ d) :
    a.mul b ≤ c.mul d := by
  apply (mul_spans ha hb).le
  rintro _ ⟨x, hx, y, hy, rfl⟩
  exact mem_mul (mem_of_le hac hx) (mem_of_le hbd hy)

/-! ## Sums and single numbers -/

theorem lo_finsetSum {ι : Type} (s : Finset ι) (a : ι → Interval ℝ) :
    (∑ i ∈ s, a i).lo = ∑ i ∈ s, (a i).lo :=
  map_sum (AddMonoidHom.mk' Interval.lo fun _ _ ↦ rfl) a s

theorem hi_finsetSum {ι : Type} (s : Finset ι) (a : ι → Interval ℝ) :
    (∑ i ∈ s, a i).hi = ∑ i ∈ s, (a i).hi :=
  map_sum (AddMonoidHom.mk' Interval.hi fun _ _ ↦ rfl) a s

theorem singleton_add (x y : ℝ) : singleton x + singleton y = singleton (x + y) :=
  rfl

theorem singleton_finsetSum {ι : Type} (s : Finset ι) (x : ι → ℝ) :
    ∑ i ∈ s, singleton (x i) = singleton (∑ i ∈ s, x i) := by
  apply ext
  · exact lo_finsetSum s _
  · exact hi_finsetSum s _

theorem scale_singleton (x k : ℝ) : (singleton x).scale k = singleton (k * x) := by
  unfold scale
  split <;> rfl

theorem square_singleton (x : ℝ) : (singleton x).square = singleton (x * x) := by
  unfold square
  split
  · rfl
  · split
    · rfl
    · exact absurd (le_of_not_ge ‹¬ 0 ≤ x›) ‹¬ x ≤ 0›

theorem mul_singleton (x y : ℝ) : (singleton x).mul (singleton y) = singleton (x * y) := by
  simp only [mul, singleton, Scalar.min_real, Scalar.max_real, min_self, max_self]

end GlobalQcqp.Interval
