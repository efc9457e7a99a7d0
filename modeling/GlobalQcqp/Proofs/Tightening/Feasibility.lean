import GlobalQcqp.Proofs.Ranges
import GlobalQcqp.Proofs.Relaxation
import GlobalQcqp.Proofs.Tightening
import GlobalQcqp.Proofs.Tightening.Support
/-!
# Feasibility-based tightening is conservative

At a point of the box the coefficients of a split lie in their ranges.  So where the function is at
most the tolerance, each coordinate is a supported value and stays in the hull of these.
-/

namespace GlobalQcqp

variable {n : Nat}

namespace Feasibility

variable {q : Quadratic ℝ n} {tol : ℝ} {x : Vector ℝ n}

theorem mem_tightenSide (hq : q.eval x ≤ tol) (i : Fin n) (sides : Vector (Interval ℝ) n)
    (hx : x ∈ Box.ofSides sides) :
    ∃ next, tightenSide q tol sides i = some next ∧ x ∈ Box.ofSides next := by
  have hsides := Box.mem_ofSides_iff.mp hx
  have hslope := q.slopeAt_mem_linear sides (i := i) fun j _ ↦ hsides j
  have hrest := q.termsOver_mem_rest sides (i := i) fun j _ ↦ hsides j
  have hsquare : (q.splitAt sides i).square = 1 / 2 * q.hessian[i][i] := by
    have hhalf : (0.5 : ℝ) = 1 / 2 := by norm_num
    rw [Quadratic.splitAt, hhalf]
  simp only [tightenSide]
  split
  · exact ⟨sides, rfl, hx⟩
  · have hle : (q.splitAt sides i).square * (x[i] * x[i]) + q.slopeAt i x * x[i] +
        (q.constant + q.termsOver {i}ᶜ x) ≤ tol := by
      rwa [hsquare, ← q.eval_eq_split i x]
    obtain ⟨hull, hsolve, hmem⟩ := Split.mem_solve (hsides i) hslope hrest hle
    refine ⟨_, by rw [hsolve]; rfl, fun j ↦ ?_⟩
    simp only [Box.side_ofSides, getElem_fin, Vector.getElem_set]
    split
    · have hij : i = j := Fin.ext ‹_›
      rw [← hij]
      exact Interval.mem_inter.mpr ⟨hsides i, hmem⟩
    · exact hsides j

theorem mem_tighten (hq : q.eval x ≤ tol) (sides : Vector (Interval ℝ) n)
    (hx : x ∈ Box.ofSides sides) :
    ∃ next, tighten q tol sides = some next ∧ x ∈ Box.ofSides next :=
  exists_foldlM_eq_some (P := (x ∈ Box.ofSides ·))
    (fun sides hx i _ ↦ mem_tightenSide hq i sides hx) hx

theorem mem_sweep {qs : List (Quadratic ℝ n)} (hqs : ∀ q ∈ qs, q.eval x ≤ tol)
    (sides : Vector (Interval ℝ) n) (hx : x ∈ Box.ofSides sides) :
    ∃ next, sweep qs tol sides = some next ∧ x ∈ Box.ofSides next :=
  exists_foldlM_eq_some (P := (x ∈ Box.ofSides ·))
    (fun sides hx q hq ↦ mem_tighten (hqs q hq) sides hx) hx

/-- Repeated sweeps keep every point at which all functions are at most the tolerance. -/
theorem mem_passes {settings : Settings ℝ} {qs : List (Quadratic ℝ n)}
    (hqs : ∀ q ∈ qs, q.eval x ≤ settings.tol) {count : Nat} {sides : Vector (Interval ℝ) n}
    (hx : x ∈ Box.ofSides sides) {r : Option (Vector (Interval ℝ) n)}
    (hr : passes settings qs count sides = .ok r) :
    ∃ next, r = some next ∧ x ∈ Box.ofSides next := by
  induction count generalizing sides with
  | zero =>
      cases hr
      exact ⟨sides, rfl, hx⟩
  | succ count ih =>
      obtain ⟨next, hnext, hmem⟩ := mem_sweep hqs sides hx
      simp only [passes, hnext] at hr
      split at hr
      · cases hr
      · split at hr
        · cases hr
          exact ⟨next, rfl, hmem⟩
        · exact ih hmem hr

/-! ## The propagator -/

variable {π σ : Type} {p : Problem ℝ} {settings : Settings ℝ}

noncomputable def functions (settings : Settings ℝ) (p : Problem ℝ)
    (progress : Progress EReal π) : List (Quadratic ℝ p.size) :=
  p.inequalities ++ if settings.usesCut then Problem.objectiveCut p.objective progress else []

@[simp] theorem functions?_eq_ok (settings : Settings ℝ) (p : Problem ℝ)
    (progress : Progress EReal π) :
    functions? settings p progress = .ok (functions settings p progress) := by
  have hboth : p.equalities.mapM (m := Except (Fault ℝ)) (fun h ↦ do return [h, ← h.neg?]) =
      .ok (p.equalities.map fun h ↦ [h, h.neg]) :=
    mapM_eq_ok (fun h ↦ by simp) _
  unfold functions? functions
  rw [hboth]
  cases settings.usesCut <;> simp [Problem.inequalities, List.flatMap_def]

section

variable {progress : Progress EReal π} {x : Vector ℝ p.size}

theorem eval_le_of_mem_functions (hineq : ∀ q ∈ p.inequalities, q.eval x ≤ settings.tol)
    (hcut : settings.usesCut = true → progress.hasIncumbent = true →
      p.objective.eval x ≤ progress.incumbentValue.toReal + settings.tol) :
    ∀ q ∈ functions settings p progress, q.eval x ≤ settings.tol := by
  intro q hq
  rcases List.mem_append.mp hq with hq | hq
  · exact hineq q hq
  · split at hq
    · exact Problem.eval_le_of_mem_objectiveCut (hcut ‹_›) q hq
    · cases hq

theorem eval_le_of_isUseful (htol : 0 ≤ settings.tol) (hx : p.IsUseful progress x) :
    ∀ q ∈ functions settings p progress, q.eval x ≤ settings.tol := by
  refine eval_le_of_mem_functions (fun q hq ↦ ?_) fun _ hinc ↦ ?_
  · exact (Problem.eval_le_zero_of_mem_inequalities hx.1.2.1 hx.1.2.2 q hq).trans htol
  · exact (hx.2 hinc).trans (le_add_of_nonneg_right htol)

theorem eval_le_of_mem_toleratedSet
    (hx : x ∈ p.toleratedSet progress settings.usesCut settings.tol) :
    ∀ q ∈ functions settings p progress, q.eval x ≤ settings.tol := by
  obtain ⟨hg, hh, hcut⟩ := hx
  refine eval_le_of_mem_functions (Problem.eval_le_of_mem_inequalities hg hh) fun huses hinc ↦ ?_
  obtain ⟨v, hv, hle⟩ := hcut huses hinc
  rwa [hv, EReal.toReal_coe]

end

/-- What a run of the propagator comes to, once the epigraph range is clamped. -/
inductive Outcome (settings : Settings ℝ) (p : Problem ℝ) (progress : Progress EReal π)
    (node : Node ℝ EReal p.stored) : Propagated ℝ EReal p.stored σ → Prop where
  | kept {r} (hnode : r.node = node) (hopen : r.isOpen = true) : Outcome settings p progress node r
  | refuted {r} (hpasses : passes settings (functions settings p progress) settings.maxPasses
        (p.restrictBox node.box).sides = .ok none)
      (hnode : r.node = node.markInfeasible) (hopen : r.isOpen = false) :
      Outcome settings p progress node r
  | tightened {r sides} (hpasses : passes settings (functions settings p progress)
        settings.maxPasses (p.restrictBox node.box).sides = .ok (some sides))
      (hnode : node.tighten? (p.scatterBox node.box (.ofSides sides)) = some r.node)
      (hopen : r.isOpen = true) : Outcome settings p progress node r

theorem propagator_outcome {node : Node ℝ EReal p.stored} {progress : Progress EReal π} {s : σ}
    {r : Propagated ℝ EReal p.stored σ} (hr : propagator settings p node progress s = .ok r) :
    ∃ clamped, p.tightenEpigraph node progress.incumbentValue = .ok clamped ∧
      Outcome settings p progress clamped r := by
  obtain ⟨clamped, hclamp, hr⟩ := bind_eq_ok_iff.mp hr
  refine ⟨clamped, hclamp, ?_⟩
  rw [functions?_eq_ok, ok_bind] at hr
  split at hr
  · cases hr
    exact .kept rfl rfl
  · obtain ⟨found, hfound, hr⟩ := bind_eq_ok_iff.mp hr
    cases found with
    | none =>
        cases hr
        exact .refuted hfound rfl rfl
    | some sides =>
        simp only at hr
        split at hr
        · cases hr
          exact .tightened hfound ‹_› rfl
        · cases hr
          exact .kept rfl rfl

theorem Outcome.narrowedFrom {node : Node ℝ EReal p.stored} {progress : Progress EReal π}
    {r : Propagated ℝ EReal p.stored σ} (h : Outcome settings p progress node r) :
    r.node.NarrowedFrom node := by
  cases h with
  | kept hnode _ => exact hnode ▸ .refl node
  | refuted _ hnode _ => exact hnode ▸ (Node.NarrowedFrom.refl node).markInfeasible
  | tightened _ hnode _ => exact (Node.tighten?_eq_some hnode).2

/-- The side of an auxiliary variable is left alone. -/
theorem Outcome.side_eq {node : Node ℝ EReal p.stored} {progress : Progress EReal π}
    {r : Propagated ℝ EReal p.stored σ} (h : Outcome settings p progress node r)
    {i : Fin p.stored} (hi : p.variableAt? i = none) : r.node.box.side i = node.box.side i := by
  cases h with
  | kept hnode _ => rw [hnode]
  | refuted _ hnode _ => rw [hnode, Node.markInfeasible]
  | tightened _ hnode _ =>
      rw [(Node.tighten?_eq_some hnode).1, Box.side_inter, Problem.side_scatterBox, hi]
      exact Interval.inter_self _

theorem propagator_isNarrowing :
    (propagator settings p : Propagator ℝ EReal p.stored π σ).IsNarrowing := by
  intro node progress s r hr
  obtain ⟨clamped, hclamp, hout⟩ := propagator_outcome hr
  exact hout.narrowedFrom.trans (Problem.tightenEpigraph_narrows hclamp)

/-- A point at which no function exceeds the tolerance stays in the box, and the node open. -/
theorem mem_propagator (hp : p.EpigraphIsAuxiliary) {node : Node ℝ EReal p.stored}
    {progress : Progress EReal π} {s : σ} {r : Propagated ℝ EReal p.stored σ}
    (hr : propagator settings p node progress s = .ok r) {x : Vector ℝ p.size}
    (hx : ∀ q ∈ functions settings p progress, q.eval x ≤ settings.tol)
    (hbox : x ∈ p.restrictBox node.box) : r.isOpen = true ∧ x ∈ p.restrictBox r.node.box := by
  obtain ⟨clamped, hclamp, hout⟩ := propagator_outcome hr
  rw [← Problem.restrictBox_tightenEpigraph hp hclamp] at hbox
  have hsides : x ∈ Box.ofSides (p.restrictBox clamped.box).sides := by
    intro i
    simpa using hbox i
  cases hout with
  | kept hnode hopen => exact ⟨hopen, hnode ▸ hbox⟩
  | refuted hpasses _ _ =>
      obtain ⟨next, hnext, _⟩ := mem_passes hx hsides hpasses
      cases hnext
  | tightened hpasses hnode hopen =>
      obtain ⟨next, hnext, hmem⟩ := mem_passes hx hsides hpasses
      cases hnext
      refine ⟨hopen, ?_⟩
      rw [(Node.tighten?_eq_some hnode).1]
      exact Problem.mem_restrictBox_inter.mpr ⟨hbox, Problem.mem_restrictBox_scatterBox.mpr hmem⟩

theorem propagator_isConservative (hp : p.EpigraphIsAuxiliary) (htol : 0 ≤ settings.tol) :
    (propagator settings p : Propagator ℝ EReal p.stored π σ).IsConservative p :=
  fun _ _ _ _ hr _ hx hbox ↦ mem_propagator hp hr (eval_le_of_isUseful htol hx) hbox

/-- A refuted node is marked, and its sides at the optimized variables are as they were. -/
theorem propagator_refuted (hp : p.EpigraphIsAuxiliary) {node : Node ℝ EReal p.stored}
    {progress : Progress EReal π} {s : σ} {r : Propagated ℝ EReal p.stored σ}
    (hr : propagator settings p node progress s = .ok r) (hclosed : r.isOpen = false) :
    r.node.status = .infeasible ∧ r.node.lowerBound = ⊤ ∧
      p.restrictBox r.node.box = p.restrictBox node.box := by
  obtain ⟨clamped, hclamp, hout⟩ := propagator_outcome hr
  cases hout with
  | kept _ hopen => cases hopen.symm.trans hclosed
  | tightened _ _ hopen => cases hopen.symm.trans hclosed
  | refuted _ hnode _ =>
      rw [hnode, ← Problem.restrictBox_tightenEpigraph hp hclamp]
      exact ⟨rfl, rfl, rfl⟩

end Feasibility

end GlobalQcqp
