import GlobalQcqp.Proofs.Except
import GlobalQcqp.Proofs.Ranges.Split
import GlobalQcqp.Proofs.Tightening.Support
/-!
# Strength of feasibility-based tightening

Each turn of a round leaves exactly the hull of the supported values on the side of its variable, as
long as the split is not constant.  A variable with a constant split is passed over, and with it the
test whether the rest alone exceeds the tolerance.

So a round sees everything that interval evaluation on the whole box sees, unless every variable is
passed over.  This is where no square occurs and the gradient vanishes on the box.
-/

namespace GlobalQcqp

/-- No variable has a square or a slope other than zero anywhere in the box. -/
def Quadratic.IsFlatOn {n : Nat} (q : Quadratic ℝ n) (box : Box ℝ n) : Prop :=
  ∀ i : Fin n, q.hessian[i][i] = 0 ∧ ∀ x ∈ box, (q.gradient x)[i] = 0

namespace Feasibility

/-- The sides when the turn comes to variable `i`, unless no point was left before. -/
def sidesBefore {α : Type} [Scalar α] {n : Nat} (q : Quadratic α n) (tol : α)
    (sides : Vector (Interval α) n) (i : Nat) : Option (Vector (Interval α) n) :=
  ((List.finRange n).take i).foldlM (tightenSide q tol) sides

variable {n : Nat} {q : Quadratic ℝ n} {tol : ℝ} {sides current next : Vector (Interval ℝ) n}
  {i : Fin n}

/-! ## One turn -/

theorem tightenSide_of_isConstant (hi : (q.splitAt sides i).isConstant = true) :
    tightenSide q tol sides i = some sides := by
  simp only [tightenSide, hi, if_true]

theorem tightenSide_eq_none_iff (hsides : (Box.ofSides sides).IsProper)
    (hi : (q.splitAt sides i).isConstant = false) :
    tightenSide q tol sides i = none ↔ (q.splitAt sides i).support tol sides[i] = ∅ := by
  simp only [tightenSide, hi, Bool.false_eq_true, if_false, Option.map_eq_none_iff]
  exact Split.solve_eq_none_iff (q.splitAt_isProper hsides i)

/-- The side of the variable becomes the hull of the supported values, and no other side moves. -/
theorem tightenSide_eq_some (hsides : (Box.ofSides sides).IsProper)
    (hi : (q.splitAt sides i).isConstant = false) (h : tightenSide q tol sides i = some next) :
    next[i].Spans ((q.splitAt sides i).support tol sides[i]) ∧
      ∀ j : Fin n, j ≠ i → next[j] = sides[j] := by
  simp only [tightenSide, hi, Bool.false_eq_true, if_false, Option.map_eq_some_iff] at h
  obtain ⟨hull, hsolve, rfl⟩ := h
  have hspans := Split.solve_spans (q.splitAt_isProper hsides i) hsolve
  have hle : hull ≤ sides[i] := hspans.le fun t ht ↦ ht.1
  constructor
  · rw [getElem_fin, Vector.getElem_set_self, Interval.inter_eq_right hle]
    exact hspans
  · intro j hj
    rw [getElem_fin, Vector.getElem_set_ne]
    · rfl
    · exact fun hij ↦ hj (Fin.ext hij.symm)

theorem tightenSide_isProper (hsides : (Box.ofSides sides).IsProper)
    (h : tightenSide q tol sides i = some next) : (Box.ofSides next).IsProper := by
  cases hi : (q.splitAt sides i).isConstant with
  | true =>
      rw [tightenSide_of_isConstant hi] at h
      cases h
      exact hsides
  | false =>
      obtain ⟨hspans, hothers⟩ := tightenSide_eq_some hsides hi h
      rw [Box.isProper_ofSides_iff] at hsides ⊢
      intro j
      by_cases hj : j = i
      · rw [hj]
        exact hspans.lo_le_hi
      · rw [hothers j hj]
        exact hsides j

/-! ## A round -/

theorem sidesBefore_isProper (hsides : (Box.ofSides sides).IsProper) {k : Nat}
    (h : sidesBefore q tol sides k = some current) : (Box.ofSides current).IsProper := by
  apply of_foldlM_eq_some (P := fun sides ↦ (Box.ofSides sides).IsProper) _ hsides h
  intro sides hsides i _ next hnext
  exact tightenSide_isProper hsides hnext

theorem sidesBefore_succ (q : Quadratic ℝ n) (tol : ℝ) (sides : Vector (Interval ℝ) n)
    (i : Fin n) : sidesBefore q tol sides (i + 1) =
      (sidesBefore q tol sides i).bind (tightenSide q tol · i) := by
  have hlength : (i : Nat) < (List.finRange n).length := by
    rw [List.length_finRange]
    exact i.isLt
  have htake : (List.finRange n).take (i + 1) = (List.finRange n).take i ++ [i] := by
    rw [List.take_succ_eq_append_getElem hlength, List.getElem_finRange]
    rfl
  rw [sidesBefore, htake, List.foldlM_append]
  apply congrArg
  funext current
  rw [List.foldlM_cons]
  cases tightenSide q tol current i <;> rfl

/-- A round goes on from every turn. -/
theorem tighten_eq_bind (q : Quadratic ℝ n) (tol : ℝ) (sides : Vector (Interval ℝ) n) (k : Nat) :
    tighten q tol sides = (sidesBefore q tol sides k).bind
      (((List.finRange n).drop k).foldlM (tightenSide q tol)) := by
  rw [tighten, ← List.take_append_drop k (List.finRange n), List.foldlM_append,
    List.take_append_drop]
  rfl

/-- At every turn of a round over a proper box, unless the variable is passed over, its side becomes
the hull of the supported values, with both ends supported.  If there are none the round ends. -/
theorem turn_leaves_hull_of_support (hsides : (Box.ofSides sides).IsProper)
    (hcurrent : sidesBefore q tol sides i = some current)
    (hi : (q.splitAt current i).isConstant = false) :
    let s := q.splitAt current i
    let support := {t | t ∈ current[i] ∧ ∃ b ∈ s.linear, ∃ r ∈ s.rest,
      s.square * t ^ 2 + b * t + r ≤ tol}
    (sidesBefore q tol sides (i + 1) = none ↔ support = ∅) ∧
      (support = ∅ → tighten q tol sides = none) ∧
      ∀ next, sidesBefore q tol sides (i + 1) = some next →
        IsLeast support next[i].lo ∧ IsGreatest support next[i].hi ∧
          ∀ j : Fin n, j ≠ i → next[j] = current[j] := by
  intro s support
  have hsupport : support = s.support tol current[i] := by
    simp only [support, Split.support, sq]
  have hproper := sidesBefore_isProper hsides hcurrent
  have hturn : sidesBefore q tol sides (i + 1) = tightenSide q tol current i := by
    rw [sidesBefore_succ, hcurrent]
    rfl
  have hnone : sidesBefore q tol sides (i + 1) = none ↔ support = ∅ := by
    rw [hturn, hsupport]
    exact tightenSide_eq_none_iff hproper hi
  refine ⟨hnone, ?_, ?_⟩
  · intro hempty
    rw [tighten_eq_bind q tol sides (i + 1), hnone.mpr hempty]
    rfl
  · intro next hnext
    rw [hturn] at hnext
    obtain ⟨hspans, hothers⟩ := tightenSide_eq_some hproper hi hnext
    rw [hsupport]
    exact ⟨hspans.1, hspans.2, hothers⟩

/-- The unit disc in a square with sides of length ten: the first turn cuts the first side down to
the disc, and leaves the second side. -/
theorem disc_first_turn :
    let disc : Quadratic ℝ 2 := .ofMatrix #v[#v[2, 0], #v[0, 2]] #v[0, 0] (-1)
    let sides : Vector (Interval ℝ) 2 := #v[⟨-5, 5⟩, ⟨-5, 5⟩]
    (Box.ofSides sides).IsProper ∧ (disc.splitAt sides 0).isConstant = false ∧
      sidesBefore disc 0 sides 0 = some sides ∧
      ∃ next, sidesBefore disc 0 sides 1 = some next ∧ next[(0 : Fin 2)] = ⟨-1, 1⟩ ∧
        next[(1 : Fin 2)] = ⟨-5, 5⟩ := by
  intro disc sides
  have hproper : (Box.ofSides sides).IsProper := by
    rw [Box.isProper_ofSides_iff]
    intro i
    fin_cases i <;> norm_num [sides]
  have hsplit : disc.splitAt sides 0 = ⟨1, ⟨0, 0⟩, ⟨-1, 24⟩⟩ := by
    simp [disc, sides, Quadratic.splitAt, Quadratic.restRanges, Quadratic.ofMatrix,
      Quadratic.meanEntry, List.finRange_succ, Interval.sum, Interval.singleton, Interval.square,
      Interval.scale]
    norm_num [Interval.add]
  have hmoves : (disc.splitAt sides 0).isConstant = false := by
    rw [hsplit]
    simp [Split.isConstant]
  have hstart : sidesBefore disc 0 sides 0 = some sides := rfl
  obtain ⟨hnone, -, hsome⟩ := turn_leaves_hull_of_support (i := 0) hproper hstart hmoves
  rw [hsplit] at hnone hsome
  have hspans : (⟨-1, 1⟩ : Interval ℝ).Spans {t | t ∈ sides[(0 : Fin 2)] ∧
      ∃ b ∈ (⟨0, 0⟩ : Interval ℝ), ∃ r ∈ (⟨-1, 24⟩ : Interval ℝ),
        1 * t ^ 2 + b * t + r ≤ 0} := by
    apply Interval.spans_of_mem
    · refine ⟨⟨?_, ?_⟩, 0, ⟨le_rfl, le_rfl⟩, -1, ⟨le_rfl, ?_⟩, ?_⟩ <;> norm_num [sides]
    · refine ⟨⟨?_, ?_⟩, 0, ⟨le_rfl, le_rfl⟩, -1, ⟨le_rfl, ?_⟩, ?_⟩ <;> norm_num [sides]
    · rintro t ⟨-, b, hb, r, hr, hle⟩
      obtain rfl : b = 0 := le_antisymm hb.2 hb.1
      have hlow : -1 ≤ r := hr.1
      constructor <;> nlinarith
  cases hnext : sidesBefore disc 0 sides 1 with
  | none => cases (hnone.mp hnext ▸ hspans.1.1 : (-1 : ℝ) ∈ (∅ : Set ℝ))
  | some next =>
      obtain ⟨hlo, hhi, hothers⟩ := hsome next hnext
      refine ⟨hproper, hmoves, hstart, next, rfl, ?_, hothers 1 (by decide)⟩
      exact Interval.ext (hlo.unique hspans.1) (hhi.unique hspans.2)

/-! ## Against interval evaluation -/

/-- What exceeds the tolerance on the whole box has no supported values. -/
theorem tightenSide_eq_none_of_lt (hsides : (Box.ofSides sides).IsProper)
    (hlt : tol < (q.interval sides).lo) (hi : (q.splitAt sides i).isConstant = false) :
    tightenSide q tol sides i = none := by
  rw [tightenSide_eq_none_iff hsides hi]
  apply Set.eq_empty_of_forall_notMem
  rintro t ⟨ht, b, hb, r, hr, hle⟩
  have hlow := q.lo_interval_le hsides ht hb hr
  linarith

/-- Until the first variable that is not passed over the sides stay as they are. -/
theorem foldlM_tightenSide_of_lt (hsides : (Box.ofSides sides).IsProper)
    (hlt : tol < (q.interval sides).lo) (l : List (Fin n)) :
    ((∀ i ∈ l, (q.splitAt sides i).isConstant = true) ∧
        l.foldlM (tightenSide q tol) sides = some sides) ∨
      ((∃ i ∈ l, (q.splitAt sides i).isConstant = false) ∧
        l.foldlM (tightenSide q tol) sides = none) := by
  induction l with
  | nil =>
      left
      exact ⟨nofun, rfl⟩
  | cons i l ih =>
      rw [List.foldlM_cons]
      cases hi : (q.splitAt sides i).isConstant with
      | true =>
          rw [tightenSide_of_isConstant hi]
          rcases ih with ⟨hall, hkept⟩ | ⟨⟨j, hj, hmoves⟩, hnone⟩
          · left
            exact ⟨List.forall_mem_cons.mpr ⟨hi, hall⟩, hkept⟩
          · right
            exact ⟨⟨j, List.mem_cons_of_mem i hj, hmoves⟩, hnone⟩
      | false =>
          right
          rw [tightenSide_eq_none_of_lt hsides hlt hi]
          exact ⟨⟨i, List.mem_cons_self, hi⟩, rfl⟩

/-- Where interval evaluation shows that no point of a proper box satisfies an inequality, a round
shows it too, unless the quadratic is flat on the box.  Then the box is kept as it is. -/
theorem tighten_of_lt_interval (hsides : (Box.ofSides sides).IsProper)
    (hlt : tol < (q.interval sides).lo) :
    (∀ x ∈ Box.ofSides sides, tol < q.eval x) ∧
      (tighten q tol sides = none ↔ ¬ q.IsFlatOn (Box.ofSides sides)) ∧
      (tighten q tol sides = some sides ↔ q.IsFlatOn (Box.ofSides sides)) := by
  have hflat : q.IsFlatOn (Box.ofSides sides) ↔
      ∀ i ∈ List.finRange n, (q.splitAt sides i).isConstant = true := by
    simp only [Quadratic.IsFlatOn, List.mem_finRange, true_implies, q.isConstant_splitAt_iff hsides]
  refine ⟨fun x hx ↦ ?_, ?_⟩
  · have hmem := q.eval_mem_interval sides (Box.mem_ofSides_iff.mp hx)
    exact hlt.trans_le hmem.1
  · rw [hflat, tighten]
    rcases foldlM_tightenSide_of_lt hsides hlt (List.finRange n) with
      ⟨hall, hkept⟩ | ⟨⟨i, hi, hmoves⟩, hnone⟩
    · rw [hkept]
      exact ⟨iff_of_false nofun (not_not.mpr hall), iff_of_true rfl hall⟩
    · have hmoved : ¬ ∀ i ∈ List.finRange n, (q.splitAt sides i).isConstant = true := by
        intro hall
        cases (hall i hi).symm.trans hmoves
      rw [hnone]
      exact ⟨iff_of_true rfl hmoved, iff_of_false nofun hmoved⟩

/-- The constant one is above zero, and a round for `1 ≤ 0` keeps the unit interval. -/
theorem tighten_keeps_constant :
    let one : Quadratic ℝ 1 := .ofMatrix (zeroMatrix ℝ 1) #v[0] 1
    let sides : Vector (Interval ℝ) 1 := #v[⟨0, 1⟩]
    (Box.ofSides sides).IsProper ∧ 0 < (one.interval sides).lo ∧
      one.IsFlatOn (Box.ofSides sides) ∧ tighten one 0 sides = some sides := by
  intro one sides
  have hproper : (Box.ofSides sides).IsProper := by
    rw [Box.isProper_ofSides_iff]
    intro i
    fin_cases i
    norm_num [sides]
  have hinterval : one.interval sides = ⟨1, 1⟩ := by
    simp [one, Quadratic.interval, Quadratic.rowRanges, Quadratic.ofMatrix, Quadratic.meanEntry,
      zeroMatrix, Interval.sum, Interval.singleton, List.finRange_succ]
  have hlt : 0 < (one.interval sides).lo := by
    rw [hinterval]
    exact one_pos
  have hflat : one.IsFlatOn (Box.ofSides sides) := by
    intro i
    fin_cases i
    simp [one, Quadratic.gradient, Quadratic.ofMatrix, Quadratic.meanEntry, zeroMatrix, dot_eq_sum]
  exact ⟨hproper, hlt, hflat, (tighten_of_lt_interval hproper hlt).2.2.mpr hflat⟩

end Feasibility

end GlobalQcqp
