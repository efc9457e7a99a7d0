import GlobalQcqp.Proofs.Exact
import GlobalQcqp.Search
/-!
# The prune threshold

With finite gaps the threshold lies at or below the value of the incumbent.  If the relative gap is
at most one, the threshold falls with that value, so that what was discarded once stays discarded.
-/

namespace GlobalQcqp

variable {σ : Type} {p : Problem ℝ}

/-- The value is infinite without an incumbent, and real with one. -/
def Progress.IsMeasured {π : Type} (s : Progress EReal π) : Prop :=
  (s.hasIncumbent = false → s.incumbentValue = ⊤) ∧
    (s.hasIncumbent = true → ∃ v : ℝ, s.incumbentValue = v)

/-- The incumbent of another progress is kept, or replaced by one that is no worse. -/
structure Progress.IsNoWorseThan {π : Type} (t s : Progress EReal π) : Prop where
  keeps : s.hasIncumbent = true → t.hasIncumbent = true
  value_le : t.incumbentValue ≤ s.incumbentValue

namespace Setup

structure HasFiniteGaps (setup : Setup ℝ EReal σ p) : Prop where
  abs_nonneg : 0 ≤ setup.absGap
  abs_ne_top : setup.absGap ≠ ⊤
  rel_nonneg : 0 ≤ setup.relGap
  rel_ne_top : setup.relGap ≠ ⊤

/-- The larger of the absolute gap and of the relative gap at a value. -/
noncomputable def gapAt (setup : Setup ℝ EReal σ p) (v : ℝ) : EReal :=
  max setup.absGap (setup.relGap * (|v| : ℝ))

variable {setup : Setup ℝ EReal σ p} {s t : Progress EReal (Vector ℝ p.stored)}

theorem pruneThreshold_eq_top (h : s.hasIncumbent = false) : setup.pruneThreshold s = ⊤ := by
  simp [pruneThreshold, h]

theorem pruneThreshold_eq (h : s.hasIncumbent = true) {v : ℝ} (hv : s.incumbentValue = v) :
    setup.pruneThreshold s = v - setup.gapAt v := by
  simp only [pruneThreshold, h, hv, if_true, Scalar.max_ereal, Scalar.abs_coe, gapAt]

/-- A finite gap at a value is a real number, by the same formula. -/
theorem HasFiniteGaps.exists_real (h : setup.HasFiniteGaps) : ∃ a r : ℝ, 0 ≤ a ∧ 0 ≤ r ∧
    setup.absGap = a ∧ setup.relGap = r ∧ ∀ v, setup.gapAt v = (max a (r * |v|) : ℝ) := by
  obtain ⟨a, ha⟩ : ∃ a : ℝ, setup.absGap = a :=
    ⟨_, (EReal.coe_toReal h.abs_ne_top (EReal.bot_lt_zero.trans_le h.abs_nonneg).ne').symm⟩
  obtain ⟨r, hr⟩ : ∃ r : ℝ, setup.relGap = r :=
    ⟨_, (EReal.coe_toReal h.rel_ne_top (EReal.bot_lt_zero.trans_le h.rel_nonneg).ne').symm⟩
  refine ⟨a, r, ?_, ?_, ha, hr, fun v ↦ ?_⟩
  · exact EReal.coe_nonneg.mp (ha ▸ h.abs_nonneg)
  · exact EReal.coe_nonneg.mp (hr ▸ h.rel_nonneg)
  · rw [gapAt, ha, hr, ← EReal.coe_mul, EReal.coe_strictMono.monotone.map_max]

theorem pruneThreshold_le_value (hgaps : setup.HasFiniteGaps) (hs : s.IsMeasured) :
    setup.pruneThreshold s ≤ s.incumbentValue := by
  obtain ⟨a, r, ha, -, -, -, hgap⟩ := hgaps.exists_real
  cases h : s.hasIncumbent with
  | false =>
      rw [hs.1 h]
      exact le_top
  | true =>
      obtain ⟨v, hv⟩ := hs.2 h
      rw [pruneThreshold_eq h hv, hgap, hv, ← EReal.coe_sub, EReal.coe_le_coe_iff]
      linarith [le_max_left a (r * |v|)]

/-- The value less the larger gap rises with the value.  With a factor above one it does so only as
long as the absolute gap is the larger one. -/
theorem sub_gap_mono {a r v w : ℝ} (hr : 0 ≤ r) (hwv : w ≤ v) (h : r ≤ 1 ∨ r * v ≤ a) :
    w - max a (r * |w|) ≤ v - max a (r * |v|) := by
  have hlow : w - max a (r * |w|) ≤ w - a := by linarith [le_max_left a (r * |w|)]
  have hrel : w - max a (r * |w|) ≤ v - r * |v| ∨ r * |v| ≤ a := by
    rcases h with hr1 | hsmall
    · left
      -- the relative gap changes by at most the change of the value
      have habs : |v| - |w| ≤ v - w := by
        calc |v| - |w| ≤ |v - w| := abs_sub_abs_le_abs_sub v w
          _ = v - w := abs_of_nonneg (by linarith)
      have hrate : r * |v| - r * |w| ≤ v - w := by
        calc r * |v| - r * |w| = r * (|v| - |w|) := by ring
          _ ≤ r * (v - w) := mul_le_mul_of_nonneg_left habs hr
          _ ≤ 1 * (v - w) := mul_le_mul_of_nonneg_right hr1 (by linarith)
          _ = v - w := one_mul _
      linarith [le_max_right a (r * |w|)]
    · rcases le_total 0 v with hv | hv
      · right
        rwa [abs_of_nonneg hv]
      · left
        have hfar : r * |v| ≤ r * |w| := by
          refine mul_le_mul_of_nonneg_left ?_ hr
          rw [abs_of_nonpos hv, abs_of_nonpos (hwv.trans hv)]
          linarith
        linarith [le_max_right a (r * |w|)]
  rcases max_cases a (r * |v|) with ⟨hmax, _⟩ | ⟨hmax, hlt⟩
  · rw [hmax]
    linarith
  · rw [hmax]
    exact hrel.resolve_right hlt.not_ge

theorem pruneThreshold_le_of_value_eq (hs : s.IsMeasured) (h : t.IsNoWorseThan s)
    (heq : t.incumbentValue = s.incumbentValue) :
    setup.pruneThreshold t ≤ setup.pruneThreshold s := by
  cases hinc : s.hasIncumbent with
  | false =>
      rw [pruneThreshold_eq_top hinc]
      exact le_top
  | true =>
      obtain ⟨v, hv⟩ := hs.2 hinc
      rw [pruneThreshold_eq hinc hv, pruneThreshold_eq (h.keeps hinc) (heq.trans hv)]

/-- A better incumbent lowers the threshold, unless the gap is relative by a factor above one. -/
theorem pruneThreshold_mono (hgaps : setup.HasFiniteGaps)
    (hrel : setup.relGap ≤ 1 ∨ setup.relGap * s.incumbentValue ≤ setup.absGap)
    (hs : s.IsMeasured) (ht : t.IsMeasured) (h : t.IsNoWorseThan s) :
    setup.pruneThreshold t ≤ setup.pruneThreshold s := by
  obtain ⟨a, r, -, hr, habs, hrel', hgap⟩ := hgaps.exists_real
  cases hinc : s.hasIncumbent with
  | false =>
      rw [pruneThreshold_eq_top hinc]
      exact le_top
  | true =>
      obtain ⟨v, hv⟩ := hs.2 hinc
      obtain ⟨w, hw⟩ := ht.2 (h.keeps hinc)
      have hle := h.value_le
      rw [hrel', habs, hv] at hrel
      rw [pruneThreshold_eq hinc hv, pruneThreshold_eq (h.keeps hinc) hw, hgap, hgap,
        ← EReal.coe_sub, ← EReal.coe_sub, EReal.coe_le_coe_iff]
      rw [hv, hw, EReal.coe_le_coe_iff] at hle
      refine sub_gap_mono hr hle ?_
      exact_mod_cast hrel

/-- The gap is closed when the threshold does not lie above a finite lower bound. -/
theorem isGapClosed_iff (hs : s.IsMeasured) :
    setup.isGapClosed s = true ↔ s.hasIncumbent = true ∧ Scalar.isFinite s.lowerBound = true ∧
      setup.pruneThreshold s ≤ s.lowerBound := by
  by_cases hopen : (s.hasIncumbent && Scalar.isFinite s.lowerBound) = true
  · obtain ⟨hinc, hfinite⟩ := (Bool.and_eq_true _ _).mp hopen
    obtain ⟨v, hv⟩ := hs.2 hinc
    obtain ⟨hbot, htop⟩ := (Scalar.isFinite_ereal _).mp hfinite
    obtain ⟨lower, hlower⟩ : ∃ lower : ℝ, s.lowerBound = lower :=
      ⟨_, (EReal.coe_toReal htop hbot).symm⟩
    have hclosed : setup.isGapClosed s = true ↔
        s.incumbentValue - s.lowerBound ≤ setup.gapAt v := by
      simp only [isGapClosed, if_pos hopen, Progress.absoluteGap, Bool.or_eq_true,
        decide_eq_true_iff, gapAt, le_max_iff, hv, Scalar.abs_coe]
    -- the gap itself may be infinite, so it is moved across as a whole
    have hmoved : (v : EReal) - lower ≤ setup.gapAt v ↔ v - setup.gapAt v ≤ lower := by
      rw [EReal.sub_le_iff_le_add (Or.inl (EReal.coe_ne_bot _)) (Or.inl (EReal.coe_ne_top _)),
        EReal.sub_le_iff_le_add (Or.inr (EReal.coe_ne_top _)) (Or.inr (EReal.coe_ne_bot _)),
        add_comm]
    rw [hclosed, pruneThreshold_eq hinc hv, hv, hlower, hmoved]
    constructor
    · intro hle
      exact ⟨hinc, Scalar.isFinite_coe lower, hle⟩
    · rintro ⟨-, -, hle⟩
      exact hle
  · have hclosed : setup.isGapClosed s = false := if_neg hopen
    rw [hclosed]
    simp only [Bool.false_eq_true, false_iff, not_and]
    exact fun hinc hfinite ↦ absurd ((Bool.and_eq_true _ _).mpr ⟨hinc, hfinite⟩) hopen

end Setup

end GlobalQcqp
