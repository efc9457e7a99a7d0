import GlobalQcqp.Proofs.Exact
import GlobalQcqp.Interval
/-!
# Enclosure by intervals

Over the real numbers every operation on intervals encloses what the operation on numbers does to
their members.  Intervals form a commutative monoid under addition, so that a sum of ranges over a
list can be read as a finite sum.
-/

namespace GlobalQcqp.Interval

instance : Membership ℝ (Interval ℝ) :=
  ⟨fun a x ↦ a.lo ≤ x ∧ x ≤ a.hi⟩

theorem mem_iff {a : Interval ℝ} {x : ℝ} : x ∈ a ↔ a.lo ≤ x ∧ x ≤ a.hi :=
  Iff.rfl

@[ext] theorem ext {a b : Interval ℝ} (hlo : a.lo = b.lo) (hhi : a.hi = b.hi) : a = b := by
  cases a
  cases b
  simp_all

@[simp] theorem mem_singleton {a x : ℝ} : x ∈ singleton a ↔ x = a :=
  ⟨fun h ↦ le_antisymm h.2 h.1, fun h ↦ h ▸ ⟨le_rfl, le_rfl⟩⟩

theorem isEmpty_eq_false_iff {a : Interval ℝ} : a.isEmpty = false ↔ a.lo ≤ a.hi := by
  simp [isEmpty]

theorem isEmpty_eq_false_of_mem {a : Interval ℝ} {x : ℝ} (hx : x ∈ a) : a.isEmpty = false :=
  isEmpty_eq_false_iff.mpr (hx.1.trans hx.2)

theorem lo_mem {a : Interval ℝ} (ha : a.lo ≤ a.hi) : a.lo ∈ a :=
  ⟨le_rfl, ha⟩

theorem hi_mem {a : Interval ℝ} (ha : a.lo ≤ a.hi) : a.hi ∈ a :=
  ⟨ha, le_rfl⟩

/-! ## Sums -/

noncomputable instance : Add (Interval ℝ) :=
  ⟨Interval.add⟩

instance : Zero (Interval ℝ) :=
  ⟨⟨0, 0⟩⟩

noncomputable instance : AddCommMonoid (Interval ℝ) where
  nsmul := nsmulRec
  add_assoc a b c := ext (add_assoc a.lo b.lo c.lo) (add_assoc a.hi b.hi c.hi)
  zero_add a := ext (zero_add a.lo) (zero_add a.hi)
  add_zero a := ext (add_zero a.lo) (add_zero a.hi)
  add_comm a b := ext (add_comm a.lo b.lo) (add_comm a.hi b.hi)

theorem mem_zero : (0 : ℝ) ∈ (0 : Interval ℝ) :=
  ⟨le_rfl, le_rfl⟩

theorem mem_add {a b : Interval ℝ} {x y : ℝ} (hx : x ∈ a) (hy : y ∈ b) : x + y ∈ a + b :=
  ⟨add_le_add hx.1 hy.1, add_le_add hx.2 hy.2⟩

theorem mem_finsetSum {ι : Type} (s : Finset ι) {a : ι → Interval ℝ} {x : ι → ℝ}
    (hx : ∀ i ∈ s, x i ∈ a i) : ∑ i ∈ s, x i ∈ ∑ i ∈ s, a i := by
  classical
  induction s using Finset.induction_on with
  | empty => simpa using mem_zero
  | insert i s hi ih =>
      rw [Finset.sum_insert hi, Finset.sum_insert hi]
      exact mem_add (hx i (Finset.mem_insert_self i s))
        (ih fun j hj ↦ hx j (Finset.mem_insert_of_mem hj))

theorem sum_eq_add_sum (start : Interval ℝ) (pieces : List (Interval ℝ)) :
    Interval.sum start pieces = start + pieces.sum := by
  induction pieces generalizing start with
  | nil => exact (add_zero start).symm
  | cons p ps ih =>
      rw [List.sum_cons, ← add_assoc]
      exact ih (start + p)

/-! ## Products -/

@[simp] theorem scale_zero (a : Interval ℝ) : a.scale 0 = 0 := by
  ext <;> simp [scale] <;> rfl

theorem mem_scale {a : Interval ℝ} {x : ℝ} (hx : x ∈ a) (k : ℝ) : k * x ∈ a.scale k := by
  unfold scale
  split
  · exact ⟨mul_le_mul_of_nonneg_left hx.1 ‹_›, mul_le_mul_of_nonneg_left hx.2 ‹_›⟩
  · have hk : k ≤ 0 := le_of_not_ge ‹_›
    exact ⟨mul_le_mul_of_nonpos_left hx.2 hk, mul_le_mul_of_nonpos_left hx.1 hk⟩

/-- A product is between the extreme products of the ends: it is monotone or antitone in each
factor. -/
theorem mem_mul {a b : Interval ℝ} {x y : ℝ} (hx : x ∈ a) (hy : y ∈ b) : x * y ∈ a.mul b := by
  have between {c d z : ℝ} (hz : c ≤ z ∧ z ≤ d) (w : ℝ) :
      min (c * w) (d * w) ≤ z * w ∧ z * w ≤ max (c * w) (d * w) := by
    rcases le_total 0 w with hw | hw
    · exact ⟨min_le_of_left_le (mul_le_mul_of_nonneg_right hz.1 hw),
        le_max_of_le_right (mul_le_mul_of_nonneg_right hz.2 hw)⟩
    · exact ⟨min_le_of_right_le (mul_le_mul_of_nonpos_right hz.2 hw),
        le_max_of_le_left (mul_le_mul_of_nonpos_right hz.1 hw)⟩
  have hxy := between hx y
  have hlo := between hy a.lo
  have hhi := between hy a.hi
  simp only [mul_comm y, mul_comm b.lo, mul_comm b.hi] at hlo hhi
  simp only [mul, mem_iff, Scalar.min_real, Scalar.max_real, min_assoc, max_assoc]
  rw [← min_assoc, ← max_assoc]
  exact ⟨(min_le_min hlo.1 hhi.1).trans hxy.1, hxy.2.trans (max_le_max hlo.2 hhi.2)⟩

theorem mem_square {a : Interval ℝ} {x : ℝ} (hx : x ∈ a) : x * x ∈ a.square := by
  unfold square
  split
  · have ha : 0 ≤ a.lo := ‹_›
    exact ⟨mul_self_le_mul_self ha hx.1, mul_self_le_mul_self (ha.trans hx.1) hx.2⟩
  · split
    · have ha : a.hi ≤ 0 := ‹_›
      exact ⟨by nlinarith [hx.2], by nlinarith [hx.1, hx.2]⟩
    · refine ⟨mul_self_nonneg x, ?_⟩
      rw [Scalar.max_real]
      rcases le_total 0 x with h | h
      · exact le_max_of_le_right (mul_self_le_mul_self h hx.2)
      · exact le_max_of_le_left (by nlinarith [hx.1])

/-! ## Parts and hulls -/

theorem mem_inter {a b : Interval ℝ} {x : ℝ} : x ∈ a.inter b ↔ x ∈ a ∧ x ∈ b := by
  simp only [inter, mem_iff, Scalar.max_real, Scalar.min_real, max_le_iff, le_min_iff]
  tauto

theorem mem_below {a : Interval ℝ} {x top : ℝ} : x ∈ a.below top ↔ x ∈ a ∧ x ≤ top := by
  simp only [below, mem_iff, Scalar.min_real, le_min_iff, and_assoc]

theorem mem_above {a : Interval ℝ} {x bottom : ℝ} : x ∈ a.above bottom ↔ x ∈ a ∧ bottom ≤ x := by
  simp only [above, mem_iff, Scalar.max_real, max_le_iff]
  tauto

/-- A member of one of the pieces is in their hull, which then exists. -/
theorem exists_hull_of_mem {pieces : List (Interval ℝ)} {p : Interval ℝ} {x : ℝ}
    (hp : p ∈ pieces) (hx : x ∈ p) : ∃ a, hull pieces = some a ∧ x ∈ a := by
  have grows (ps : List (Interval ℝ)) : ∀ acc : Interval ℝ, (x ∈ acc ∨ ∃ q ∈ ps, x ∈ q) →
      x ∈ ps.foldl (fun acc q ↦ ⟨Scalar.min acc.lo q.lo, Scalar.max acc.hi q.hi⟩) acc := by
    induction ps with
    | nil => simp
    | cons q ps ih =>
        intro acc hmem
        rw [List.foldl_cons]
        apply ih
        rcases hmem with hacc | ⟨q', hq', hxq⟩
        · left
          simp only [mem_iff, Scalar.min_real, Scalar.max_real, min_le_iff, le_max_iff]
          exact ⟨Or.inl hacc.1, Or.inl hacc.2⟩
        · rcases List.mem_cons.mp hq' with rfl | hq'
          · left
            simp only [mem_iff, Scalar.min_real, Scalar.max_real, min_le_iff, le_max_iff]
            exact ⟨Or.inr hxq.1, Or.inr hxq.2⟩
          · exact Or.inr ⟨q', hq', hxq⟩
  have hkept : p ∈ pieces.filter (!·.isEmpty) := by
    simp [hp, isEmpty_eq_false_of_mem hx]
  unfold hull
  cases hf : pieces.filter (!·.isEmpty) with
  | nil => simp [hf] at hkept
  | cons q qs =>
      refine ⟨_, rfl, grows qs q ?_⟩
      rcases List.mem_cons.mp (hf ▸ hkept) with rfl | hqs
      · exact Or.inl hx
      · exact Or.inr ⟨p, hqs, hx⟩

end GlobalQcqp.Interval
