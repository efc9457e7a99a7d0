import Mathlib
import GlobalQcqp.Scalar
/-!
# Exact arithmetic

The exact reading of the search takes real numbers for the data of a problem and extended real
numbers for bounds.  No number is undefined and every real number is finite, so the operations of
`Scalar` are the usual ones.
-/

namespace GlobalQcqp

noncomputable instance : Scalar ℝ where
  sqrt := Real.sqrt
  isFinite _ := true
  decideLT := inferInstance
  decideLE := inferInstance

noncomputable instance : Scalar EReal where
  ofScientific m s e := ((OfScientific.ofScientific m s e : ℝ) : EReal)
  sqrt a := ((Real.sqrt a.toReal : ℝ) : EReal)
  isFinite a := decide (a ≠ ⊥ ∧ a ≠ ⊤)
  decideLT := inferInstance
  decideLE := inferInstance

noncomputable instance : Extended ℝ EReal where
  posInf := ⊤
  negInf := ⊥
  ofNumber a := a
  toNumber := EReal.toReal

@[simp] theorem posInf_eq_top : (posInf : EReal) = ⊤ := rfl

@[simp] theorem negInf_eq_bot : (negInf : EReal) = ⊥ := rfl

@[simp] theorem ofNumber_eq_coe (a : ℝ) : (ofNumber a : EReal) = a := rfl

@[simp] theorem toNumber_eq_toReal (a : EReal) : (toNumber a : ℝ) = a.toReal := rfl

namespace Scalar

section Order

variable {γ : Type} [LinearOrder γ]

theorem ite_lt_eq_min (a b : γ) [Decidable (b < a)] : (if b < a then b else a) = Min.min a b := by
  split
  · exact (min_eq_right (le_of_lt ‹_›)).symm
  · exact (min_eq_left (not_lt.mp ‹_›)).symm

theorem ite_lt_eq_max (a b : γ) [Decidable (a < b)] : (if a < b then b else a) = Max.max a b := by
  split
  · exact (max_eq_right (le_of_lt ‹_›)).symm
  · exact (max_eq_left (not_lt.mp ‹_›)).symm

end Order

/-! ## Real numbers -/

@[simp] theorem min_real (a b : ℝ) : Scalar.min a b = Min.min a b :=
  ite_lt_eq_min a b

@[simp] theorem max_real (a b : ℝ) : Scalar.max a b = Max.max a b :=
  ite_lt_eq_max a b

@[simp] theorem abs_real (a : ℝ) : Scalar.abs a = |a| := by
  unfold Scalar.abs
  split
  · exact (abs_of_neg ‹_›).symm
  · exact (abs_of_nonneg (not_lt.mp ‹_›)).symm

theorem foldl_max_le_iff {ι : Type} {f : ι → ℝ} {l : List ι} {b a : ℝ} :
    l.foldl (fun w i ↦ Scalar.max w (f i)) b ≤ a ↔ b ≤ a ∧ ∀ i ∈ l, f i ≤ a := by
  induction l generalizing b with
  | nil => simp
  | cons i l ih => rw [List.foldl_cons, ih, max_real, max_le_iff, List.forall_mem_cons, and_assoc]

@[simp] theorem isFinite_real (a : ℝ) : Scalar.isFinite a = true := rfl

@[simp] theorem sqrt_real (a : ℝ) : Scalar.sqrt a = Real.sqrt a := rfl

@[simp] theorem isUndefined_real (a : ℝ) : Scalar.isUndefined a = false := by
  simp [Scalar.isUndefined]

@[simp] theorem lesser_real (a b : ℝ) : Scalar.lesser a b = Min.min a b := by
  simp [Scalar.lesser]

@[simp] theorem greater_real (a b : ℝ) : Scalar.greater a b = Max.max a b := by
  simp [Scalar.greater]

@[simp] theorem clamp_real (lo hi x : ℝ) : Scalar.clamp lo hi x = Min.min (Max.max x lo) hi := by
  simp [Scalar.clamp]

/-! ## Extended real numbers -/

@[simp] theorem min_ereal (a b : EReal) : Scalar.min a b = Min.min a b :=
  ite_lt_eq_min a b

@[simp] theorem max_ereal (a b : EReal) : Scalar.max a b = Max.max a b :=
  ite_lt_eq_max a b

@[simp] theorem abs_coe (a : ℝ) : Scalar.abs (a : EReal) = ((|a| : ℝ) : EReal) := by
  unfold Scalar.abs
  split
  · have ha : a < 0 := EReal.coe_neg'.mp ‹_›
    rw [abs_of_neg ha, EReal.coe_neg]
  · have ha : 0 ≤ a := EReal.coe_nonneg.mp (not_lt.mp ‹_›)
    rw [abs_of_nonneg ha]

@[simp] theorem isFinite_ereal (a : EReal) : Scalar.isFinite a = true ↔ a ≠ ⊥ ∧ a ≠ ⊤ :=
  decide_eq_true_iff

theorem isFinite_coe (a : ℝ) : Scalar.isFinite (a : EReal) = true :=
  (isFinite_ereal _).mpr ⟨EReal.coe_ne_bot a, EReal.coe_ne_top a⟩

end Scalar

/-- A bound between two real numbers is real. -/
theorem exists_coe_of_between {lo hi : ℝ} {a : EReal} (hlo : lo ≤ a) (hhi : a ≤ hi) :
    ∃ c : ℝ, a = c ∧ lo ≤ c ∧ c ≤ hi := by
  lift a to ℝ using
    ⟨(hhi.trans_lt (EReal.coe_lt_top hi)).ne, ((EReal.bot_lt_coe lo).trans_le hlo).ne'⟩
  exact ⟨a, rfl, EReal.coe_le_coe_iff.mp hlo, EReal.coe_le_coe_iff.mp hhi⟩

end GlobalQcqp
