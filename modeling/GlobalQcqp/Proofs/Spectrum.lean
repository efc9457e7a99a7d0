import GlobalQcqp.Proofs.Linear
import GlobalQcqp.Spectrum
/-!
# Bounds below a spectrum

The least end of a disc is below the spectrum of a real matrix, so the bound that stands in for an
eigenvalue routine is as good as a sound answer of the routine.  Adding twice the shift that goes
with either to the diagonal leaves a symmetric matrix without negative eigenvalues.

A routine may also answer with a number that is not finite.  Such answers are read among the
extended real numbers, where they count as failures and the shift stays finite.
-/

namespace GlobalQcqp

variable {n : ℕ}

def SquareMatrix.toMatrix (M : SquareMatrix ℝ n) : Matrix (Fin n) (Fin n) ℝ :=
  Matrix.of fun i j ↦ M[i][j]

def SquareMatrix.IsSymmetric (M : SquareMatrix ℝ n) : Prop :=
  ∀ i j : Fin n, M[i][j] = M[j][i]

/-- No eigenvalue of the matrix is smaller. -/
def IsBelowSpectrum (a : ℝ) (M : SquareMatrix ℝ n) : Prop :=
  ∀ e ∈ spectrum ℝ M.toMatrix, a ≤ e

namespace SquareMatrix

variable {M : SquareMatrix ℝ n} {a : ℝ}

theorem IsSymmetric.isHermitian (hM : M.IsSymmetric) : M.toMatrix.IsHermitian :=
  Matrix.IsHermitian.ext fun i j ↦ (hM i j).symm

theorem dot_eq_dotProduct (x y : Vector ℝ n) : dot x y = x.get ⬝ᵥ y.get :=
  dot_eq_sum x y

theorem dot_mulVec_eq_dotProduct (M : SquareMatrix ℝ n) (x : Vector ℝ n) :
    dot x (mulVec M x) = x.get ⬝ᵥ M.toMatrix.mulVec x.get := by
  rw [dot_eq_sum]
  refine Finset.sum_congr rfl fun i _ ↦ congrArg (x[i] * ·) ?_
  simp only [mulVec, getElem_fin, Vector.getElem_ofFn]
  exact dot_eq_sum _ _

/-- What is added to the diagonal is added to the spectrum. -/
theorem posSemidef_add_smul_one (hM : M.IsSymmetric) (ha : IsBelowSpectrum (-a) M) :
    (M.toMatrix + a • 1).PosSemidef := by
  refine Matrix.posSemidef_iff_isHermitian_and_spectrum_nonneg.mpr ⟨?_, fun e he ↦ ?_⟩
  · exact hM.isHermitian.add (Matrix.isHermitian_one.smul (IsSelfAdjoint.all a))
  · have hshifted : e + -a ∈ spectrum ℝ M.toMatrix := by
      rw [spectrum.add_mem_iff, map_neg, neg_neg, Algebra.algebraMap_eq_smul_one, add_comm]
      exact he
    have hle := ha _ hshifted
    exact (show 0 ≤ e by linarith)

/-- A bound below the spectrum bounds the form of the matrix. -/
theorem mul_dot_le_dot_mulVec (hM : M.IsSymmetric) (ha : IsBelowSpectrum a M) (x : Vector ℝ n) :
    a * dot x x ≤ dot x (mulVec M x) := by
  have hposSemidef := posSemidef_add_smul_one (a := -a) hM (by rwa [neg_neg])
  have hform := hposSemidef.dotProduct_mulVec_nonneg x.get
  rw [Matrix.add_mulVec, dotProduct_add, Matrix.smul_mulVec, Matrix.one_mulVec, dotProduct_smul,
    star_trivial, ← dot_mulVec_eq_dotProduct, ← dot_eq_dotProduct, smul_eq_mul] at hform
  linarith

end SquareMatrix

/-! ## Discs -/

theorem foldl_lesser_le_iff {l : List ℝ} {a b : ℝ} :
    b ≤ l.foldl Scalar.lesser a ↔ b ≤ a ∧ ∀ c ∈ l, b ≤ c := by
  induction l generalizing a with
  | nil => simp
  | cons c l ih =>
      rw [List.foldl_cons, ih, Scalar.lesser_real, le_min_iff, List.forall_mem_cons, and_assoc]

theorem discBound?_le {M : SquareMatrix ℝ n} {d : ℝ} (hd : discBound? M = some d) (i : Fin n) :
    d ≤ discEnd M i := by
  have hmem : discEnd M i ∈ (List.finRange n).map (discEnd M) :=
    List.mem_map_of_mem (List.mem_finRange i)
  unfold discBound? at hd
  cases hends : (List.finRange n).map (discEnd M) with
  | nil => simp [hends] at hd
  | cons first rest =>
      rw [hends] at hd hmem
      cases hd
      have hall := foldl_lesser_le_iff.mp (le_refl (rest.foldl Scalar.lesser first))
      exact List.forall_mem_cons.mpr hall _ hmem

theorem exists_discBound? {α : Type} [Scalar α] (hn : 0 < n) (M : SquareMatrix α n) :
    ∃ d, discBound? M = some d := by
  obtain ⟨m, rfl⟩ := Nat.exists_eq_add_of_lt hn
  rw [discBound?, List.finRange_succ, List.map_cons]
  exact ⟨_, rfl⟩

theorem discEnd_eq (M : SquareMatrix ℝ n) (i : Fin n) :
    discEnd M i = M[i][i] - ∑ j ∈ Finset.univ.erase i, ‖M.toMatrix i j‖ := by
  have hrow : ∑ j : Fin n, |M[i][j]| = ∑ j ∈ Finset.univ.erase i, |M[i][j]| + |M[i][i]| :=
    (Finset.sum_erase_add _ _ (Finset.mem_univ i)).symm
  simp only [discEnd, Scalar.abs_real, total_eq_sum, hrow, add_sub_cancel_right]
  rfl

/-- Every eigenvalue lies in one of the discs, so none is below all of them. -/
theorem isBelowSpectrum_of_discBound? {M : SquareMatrix ℝ n} {d : ℝ} (hd : discBound? M = some d) :
    IsBelowSpectrum d M := by
  intro e he
  rw [← Matrix.spectrum_toLin'] at he
  obtain ⟨i, hi⟩ := eigenvalue_mem_ball (Module.End.HasEigenvalue.of_mem_spectrum he)
  have hclose := (abs_le.mp (Metric.mem_closedBall.mp hi)).1
  have hend := discBound?_le hd i
  rw [discEnd_eq] at hend
  have hdiagonal : M.toMatrix i i = M[i][i] := rfl
  linarith

/-! ## Routines -/

/-- An answer is below the spectrum of a symmetric matrix. -/
def EigenRoutine.IsSound (routine : EigenRoutine ℝ) : Prop :=
  ∀ ⦃n⦄ (M : SquareMatrix ℝ n), M.IsSymmetric → ∀ a ∈ routine n M, IsBelowSpectrum a M

theorem SquareMatrix.spectrum_eq_empty (hn : ¬ 0 < n) (M : SquareMatrix ℝ n) :
    spectrum ℝ M.toMatrix = ∅ := by
  obtain rfl : n = 0 := by omega
  exact spectrum.of_subsingleton _

theorem leastEigenvalue_isBelowSpectrum {routine : EigenRoutine ℝ} (hroutine : routine.IsSound)
    {M : SquareMatrix ℝ n} (hM : M.IsSymmetric) :
    IsBelowSpectrum (leastEigenvalue routine M).value M := by
  by_cases hn : 0 < n
  · obtain ⟨d, hd⟩ := exists_discBound? hn M
    unfold leastEigenvalue
    rw [hd]
    cases hanswer : routine n M with
    | none => exact isBelowSpectrum_of_discBound? hd
    | some a => exact hroutine M hM a hanswer
  · intro e he
    rw [M.spectrum_eq_empty hn] at he
    cases he

theorem SpectralBound.neg_value_le (b : SpectralBound ℝ) : -b.value ≤ 2 * b.shift := by
  have hle : -b.value / 2.0 ≤ b.shift := by
    rw [shift, Scalar.max_real]
    exact le_max_right _ _
  norm_num at hle
  linarith

/-- The shift makes up for the eigenvalues below zero, whether the routine answers or not. -/
theorem posSemidef_add_shift {routine : EigenRoutine ℝ} (hroutine : routine.IsSound)
    {M : SquareMatrix ℝ n} (hM : M.IsSymmetric) :
    (M.toMatrix + (2 * (leastEigenvalue routine M).shift) • 1).PosSemidef := by
  refine SquareMatrix.posSemidef_add_smul_one hM fun e he ↦ ?_
  have hvalue := leastEigenvalue_isBelowSpectrum hroutine hM e he
  have hshift := (leastEigenvalue routine M).neg_value_le
  linarith

/-! ## Answers that are not finite -/

/-- A routine whose answer is not finite has failed, whatever the numbers are. -/
theorem leastEigenvalue_of_not_finite {α : Type} [Scalar α] {routine : EigenRoutine α}
    {M : SquareMatrix α n} (h : ∀ a ∈ routine n M, Scalar.isFinite a = false) :
    leastEigenvalue routine M = leastEigenvalue (fun _ _ ↦ none) M := by
  unfold leastEigenvalue
  cases hanswer : routine n M with
  | none => rfl
  | some a => simp [h a hanswer]

/-- The discs stand in for a routine that has failed. -/
theorem leastEigenvalue_eq_discs {α : Type} [Scalar α] {routine : EigenRoutine α}
    {M : SquareMatrix α n} {d : α} (hd : discBound? M = some d)
    (h : ∀ a ∈ routine n M, Scalar.isFinite a = false) :
    leastEigenvalue routine M = ⟨d, true⟩ := by
  rw [leastEigenvalue_of_not_finite h, leastEigenvalue, hd]

noncomputable def SquareMatrix.extend (M : SquareMatrix ℝ n) : SquareMatrix EReal n :=
  M.map (·.map ofNumber)

noncomputable def SquareMatrix.numbers (M : SquareMatrix EReal n) : SquareMatrix ℝ n :=
  M.map (·.map toNumber)

@[simp] theorem SquareMatrix.numbers_extend (M : SquareMatrix ℝ n) : M.extend.numbers = M := by
  ext i hi j hj
  simp [extend, numbers]

/-- The finite answers of a routine for extended real numbers. -/
noncomputable def EigenRoutine.finitePart (routine : EigenRoutine EReal) : EigenRoutine ℝ :=
  fun n M ↦ ((routine n M.extend).filter Scalar.isFinite).map toNumber

theorem total_coe (f : Fin n → ℝ) : total (fun i ↦ (f i : EReal)) = (total f : ℝ) := by
  have accumulates (l : List (Fin n)) (a : ℝ) :
      l.foldl (fun acc i ↦ acc + (f i : EReal)) a = (l.foldl (fun acc i ↦ acc + f i) a : ℝ) := by
    induction l generalizing a with
    | nil => rfl
    | cons i l ih => rw [List.foldl_cons, ← EReal.coe_add, ih, List.foldl_cons]
  exact accumulates _ 0

theorem discEnd_extend (M : SquareMatrix ℝ n) (i : Fin n) :
    discEnd M.extend i = (discEnd M i : ℝ) := by
  have hentry (j : Fin n) : M.extend[i][j] = (M[i][j] : ℝ) := by
    simp [SquareMatrix.extend]
  simp only [discEnd, hentry, Scalar.abs_coe, Scalar.abs_real, total_coe, ← EReal.coe_sub]

theorem foldl_lesser_coe (l : List ℝ) (a : ℝ) :
    (l.map Real.toEReal).foldl Scalar.lesser (a : EReal) = (l.foldl Scalar.lesser a : ℝ) := by
  have hlesser (a b : ℝ) : Scalar.lesser (a : EReal) b = (Scalar.lesser a b : ℝ) := by
    rw [Scalar.lesser_real, EReal.coe_strictMono.monotone.map_min]
    simp [Scalar.lesser, Scalar.isUndefined]
  induction l generalizing a with
  | nil => rfl
  | cons b l ih => rw [List.map_cons, List.foldl_cons, hlesser, ih, List.foldl_cons]

theorem discBound?_extend (M : SquareMatrix ℝ n) :
    discBound? M.extend = (discBound? M).map ofNumber := by
  have hends : (List.finRange n).map (discEnd M.extend) =
      ((List.finRange n).map (discEnd M)).map Real.toEReal := by
    rw [List.map_map]
    exact List.map_congr_left fun i _ ↦ discEnd_extend M i
  unfold discBound?
  rw [hends]
  cases (List.finRange n).map (discEnd M) with
  | nil => rfl
  | cons first rest => exact congrArg some (foldl_lesser_coe rest first)

/-- Among the extended real numbers the bound is the real one for the finite answers. -/
theorem leastEigenvalue_extend (routine : EigenRoutine EReal) (M : SquareMatrix ℝ n) :
    leastEigenvalue routine M.extend = ⟨(leastEigenvalue routine.finitePart M).value,
      (leastEigenvalue routine.finitePart M).fromDiscs⟩ := by
  by_cases hfinite : ∃ a : ℝ, routine n M.extend = some ↑a
  · obtain ⟨a, ha⟩ := hfinite
    have hpart : routine.finitePart n M = some a := by
      simp [EigenRoutine.finitePart, ha]
    unfold leastEigenvalue
    rw [discBound?_extend, ha, hpart]
    cases discBound? M <;> simp [Scalar.isFinite_coe]
  · have hfailed : ∀ a ∈ routine n M.extend, Scalar.isFinite a = false := by
      intro a ha
      rw [Bool.eq_false_iff]
      intro hreal
      lift a to ℝ using (Scalar.isFinite_ereal a).mp hreal |>.symm
      exact hfinite ⟨a, ha⟩
    have hpart : routine.finitePart n M = none := by
      rw [EigenRoutine.finitePart, Option.map_eq_none_iff, Option.filter_eq_none_iff]
      exact fun a ha ↦ by simp [hfailed a ha]
    have hpartFailed : ∀ a ∈ routine.finitePart n M, Scalar.isFinite a = false := by
      simp [hpart]
    rw [leastEigenvalue_of_not_finite hfailed, leastEigenvalue_of_not_finite hpartFailed]
    unfold leastEigenvalue
    rw [discBound?_extend]
    cases discBound? M <;> simp

/-- The shift is a real number even where the answer of the routine is not. -/
theorem shift_extend (routine : EigenRoutine EReal) (M : SquareMatrix ℝ n) :
    (leastEigenvalue routine M.extend).shift =
      ((leastEigenvalue routine.finitePart M).shift : ℝ) := by
  have htwo : (2.0 : EReal) = ((2.0 : ℝ) : EReal) := rfl
  rw [leastEigenvalue_extend, SpectralBound.shift, SpectralBound.shift, Scalar.max_ereal,
    Scalar.max_real, htwo, ← EReal.coe_neg, ← EReal.coe_div, EReal.coe_strictMono.monotone.map_max,
    EReal.coe_zero]

/-- The routine that answers with the least eigenvalue itself. -/
noncomputable def EigenRoutine.exact : EigenRoutine EReal :=
  fun _ M ↦ some (ofNumber (sInf (spectrum ℝ M.numbers.toMatrix)))

theorem EigenRoutine.exact_isSound : EigenRoutine.exact.finitePart.IsSound := by
  intro n M hM a ha e he
  have hanswer : exact.finitePart n M = some (sInf (spectrum ℝ M.toMatrix)) := by
    simp [finitePart, exact]
  rw [hanswer, Option.mem_some_iff] at ha
  rw [← ha]
  exact csInf_le Matrix.finite_real_spectrum.bddBelow he

end GlobalQcqp
