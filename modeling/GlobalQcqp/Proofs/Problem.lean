import GlobalQcqp.Proofs.Box
import GlobalQcqp.Proofs.Quadratic
import GlobalQcqp.Problem.Build
/-!
# Feasible points

A feasible point of a problem lies in its box at the optimized variables and satisfies every
inequality and equality.  Restricting a stored box and scattering a box over it are inverse at the
optimized variables, and nothing done to an auxiliary variable is seen there.
-/

namespace GlobalQcqp.Problem

def feasibleSet (p : Problem ℝ) : Set (Vector ℝ p.size) :=
  {y | y ∈ p.restrictBox p.box ∧ (∀ g ∈ p.constraints, g.eval y ≤ 0) ∧
    ∀ h ∈ p.equalities, h.eval y = 0}

/-! ## Places of the optimized variables -/

section Places

variable {α : Type} [Scalar α] (p : Problem α)

theorem places_of_variableAt? {s : Fin p.stored} {i : Fin p.size} (h : p.variableAt? s = some i) :
    p.places[i] = s := by
  simpa using List.find?_some h

@[simp] theorem variableAt?_places (i : Fin p.size) : p.variableAt? p.places[i] = some i := by
  cases h : p.variableAt? p.places[i] with
  | none =>
      have hmiss := List.find?_eq_none.mp h i (List.mem_finRange i)
      simp at hmiss
  | some j =>
      rw [p.places_injective j i (p.places_of_variableAt? h)]

@[simp] theorem getElem_restrict {ε : Type} (v : Vector ε p.stored) (i : Fin p.size) :
    (p.restrict v)[i] = v[p.places[i]] := by
  simp [restrict]

theorem getElem_scatter {ε : Type} (base : Vector ε p.stored) (x : Vector ε p.size)
    (s : Fin p.stored) :
    (p.scatter base x)[s] = (p.variableAt? s).elim base[s] fun i ↦ x[i] := by
  simp [scatter]

theorem restrict_scatter {ε : Type} (base : Vector ε p.stored) (x : Vector ε p.size) :
    p.restrict (p.scatter base x) = x := by
  refine Vector.ext fun i hi ↦ ?_
  have hentry := p.getElem_scatter base x p.places[(⟨i, hi⟩ : Fin p.size)]
  rw [p.variableAt?_places] at hentry
  simpa [restrict] using hentry

@[simp] theorem side_restrictBox (b : Box α p.stored) (i : Fin p.size) :
    (p.restrictBox b).side i = b.side p.places[i] := by
  simp only [restrictBox, Box.side, getElem_restrict]

theorem restrict?_toArray {ε : Type} (v : Vector ε p.stored) :
    p.restrict? v.toArray = some (p.restrict v) := by
  have hentries : (fun s : Fin p.stored ↦ v.toArray[s.val]?) = fun s ↦ pure v[s] := by
    funext s
    simp
  rw [restrict?, hentries, Vector.mapM_pure]
  refine congrArg some (Vector.ext fun i hi ↦ ?_)
  simp [restrict]

theorem restrict?_eq_some {ε : Type} {x : Array ε} (hx : x.size = p.stored) :
    ∃ y, p.restrict? x = some y :=
  ⟨_, p.restrict?_toArray ⟨x, hx⟩⟩

theorem side_scatterBox (base : Box α p.stored) (b : Box α p.size) (s : Fin p.stored) :
    (p.scatterBox base b).side s = (p.variableAt? s).elim (base.side s) b.side := by
  simp only [scatterBox, Box.side, getElem_scatter]
  cases p.variableAt? s <;> rfl

@[simp] theorem side_scatterBox_places (base : Box α p.stored) (b : Box α p.size)
    (i : Fin p.size) : (p.scatterBox base b).side p.places[i] = b.side i := by
  rw [side_scatterBox, variableAt?_places]
  rfl

end Places

/-! ## Boxes of the optimized variables -/

variable (p : Problem ℝ)

theorem box_isProper : p.box.IsProper :=
  fun s ↦ not_lt.mp (p.not_crossed s)

variable {p}

theorem restrictBox_isProper {b : Box ℝ p.stored} (hb : b.IsProper) :
    (p.restrictBox b).IsProper := by
  intro i
  rw [side_restrictBox]
  exact hb p.places[i]

theorem restrictBox_le {b c : Box ℝ p.stored} (hbc : b ≤ c) :
    p.restrictBox b ≤ p.restrictBox c := by
  intro i
  rw [side_restrictBox, side_restrictBox]
  exact hbc p.places[i]

theorem mem_restrictBox_inter {b c : Box ℝ p.stored} {x : Vector ℝ p.size} :
    x ∈ p.restrictBox (b.inter c) ↔ x ∈ p.restrictBox b ∧ x ∈ p.restrictBox c := by
  simp only [Box.mem_iff, side_restrictBox, Box.side_inter, Interval.mem_inter, forall_and]

theorem mem_restrictBox_scatterBox {base : Box ℝ p.stored} {b : Box ℝ p.size}
    {x : Vector ℝ p.size} : x ∈ p.restrictBox (p.scatterBox base b) ↔ x ∈ b := by
  simp only [Box.mem_iff, side_restrictBox, side_scatterBox_places]

/-- A side at an auxiliary variable does not show at the optimized ones. -/
theorem restrictBox_setSide {s : Fin p.stored} (hs : p.variableAt? s = none)
    (b : Box ℝ p.stored) (side : Interval ℝ) :
    p.restrictBox (b.setSide s side) = p.restrictBox b := by
  have hne (i : Fin p.size) : p.places[i] ≠ s := by
    intro heq
    rw [← heq, variableAt?_places] at hs
    cases hs
  refine Box.ext_side fun i ↦ ?_
  rw [side_restrictBox, side_restrictBox, Box.side_setSide, if_neg (hne i)]

/-! ## Violations -/

theorem violation_le_iff {x : Vector ℝ p.size} {a : ℝ} : p.violation x ≤ a ↔
    0 ≤ a ∧ (∀ g ∈ p.constraints, g.eval x ≤ a) ∧ ∀ h ∈ p.equalities, |h.eval x| ≤ a := by
  simp only [violation, Scalar.abs_real]
  rw [Scalar.foldl_max_le_iff, Scalar.foldl_max_le_iff, and_assoc]

theorem mem_feasibleSet_of_violation_le {x : Vector ℝ p.size} (hx : x ∈ p.restrictBox p.box)
    (h : p.violation x ≤ 0) : x ∈ p.feasibleSet := by
  obtain ⟨-, hconstraints, hequalities⟩ := violation_le_iff.mp h
  refine ⟨hx, hconstraints, fun q hq ↦ ?_⟩
  exact abs_eq_zero.mp (le_antisymm (hequalities q hq) (abs_nonneg _))

/-! ## The epigraph variable -/

section Epigraph

variable {α : Type} [Scalar α] {p : Problem α}

/-- The epigraph variable, if there is one, is no optimized variable. -/
def EpigraphIsAuxiliary (p : Problem α) : Prop :=
  ∀ place ∈ p.epigraph, ∀ s ∈ position? p.stored place, p.variableAt? s = none

/-- The epigraph variable, if there is one, was added to a problem without one. -/
def EpigraphIsAdded (p : Problem α) : Prop :=
  p.epigraph = none ∨ ∃ q : Problem α, q.epigraph = none ∧ q.withEpigraph = .ok p

theorem variableAt?_addEpigraph_last (q : Problem α) (range : Interval α)
    (h : ¬ range.hi < range.lo) :
    (q.addEpigraph range h).variableAt? (Fin.last q.stored) = none := by
  refine List.find?_eq_none.mpr ?_
  intro i _ hlast
  have hplace : (q.addEpigraph range h).places[i] = Fin.castSucc (q.places.get i) :=
    Vector.getElem_map _ _
  exact (Fin.castSucc_lt_last _).ne (hplace.symm.trans (beq_iff_eq.mp hlast))

theorem position?_last (stored : Nat) :
    position? (stored + 1) (stored : Int) = some (Fin.last stored) := by
  have hnonneg : ¬ (stored : Int) < 0 := by omega
  simp [position?, hnonneg, Fin.last]

theorem EpigraphIsAdded.eq_addEpigraph (hp : p.EpigraphIsAdded) :
    p.epigraph = none ∨ ∃ q range h, p = addEpigraph q range h := by
  rcases hp with hnone | ⟨q, hq, hadded⟩
  · exact Or.inl hnone
  · rw [withEpigraph, hq] at hadded
    simp only [Option.isSome_none, Bool.false_eq_true, if_false] at hadded
    split at hadded
    · cases hadded
    · split at hadded
      · cases hadded
        exact Or.inr ⟨q, _, _, rfl⟩
      · cases hadded

/-- An epigraph variable that was added is the last stored variable. -/
theorem EpigraphIsAdded.exists_position (hp : p.EpigraphIsAdded) :
    ∀ place ∈ p.epigraph, ∃ s, position? p.stored place = some s ∧ p.variableAt? s = none := by
  intro place hplace
  rcases hp.eq_addEpigraph with hnone | ⟨q, range, h, rfl⟩
  · rw [hnone] at hplace
    cases hplace
  · have hplace : place = q.stored := by simpa [addEpigraph, eq_comm] using hplace
    rw [hplace]
    exact ⟨_, position?_last q.stored, q.variableAt?_addEpigraph_last range h⟩

theorem EpigraphIsAdded.isAuxiliary (hp : p.EpigraphIsAdded) : p.EpigraphIsAuxiliary := by
  intro place hplace s hs
  obtain ⟨last, hlast, hnone⟩ := hp.exists_position place hplace
  cases hlast.symm.trans hs
  exact hnone

end Epigraph

end GlobalQcqp.Problem
