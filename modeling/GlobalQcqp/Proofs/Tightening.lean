import GlobalQcqp.Proofs.Except
import GlobalQcqp.Proofs.Problem
import GlobalQcqp.Tightening
/-!
# Conservative tightening

A narrowing propagator changes nothing of a node but its box, which shrinks and stays proper, and
the record of a refutation.  A conservative one leaves every useful point in the box: a feasible
point whose objective value does not exceed the value of the incumbent, if there is one.

Both properties pass from the members of a sequence to the sequence.
-/

namespace GlobalQcqp

variable {π σ : Type} {k : Nat}

/-- The node is another one with a smaller box, and perhaps a refutation recorded on it. -/
structure Node.NarrowedFrom (node before : Node ℝ EReal k) : Prop where
  frame : node = { before with
    box := node.box
    lowerBound := node.lowerBound
    status := node.status }
  box_le : node.box ≤ before.box
  isProper : before.box.IsProper → node.box.IsProper

namespace Node.NarrowedFrom

variable {a b c : Node ℝ EReal k}

theorem refl (a : Node ℝ EReal k) : a.NarrowedFrom a :=
  ⟨rfl, le_rfl, fun h ↦ h⟩

theorem trans (hab : a.NarrowedFrom b) (hbc : b.NarrowedFrom c) : a.NarrowedFrom c where
  frame := by
    rw [hab.frame, hbc.frame]
  box_le := hab.box_le.trans hbc.box_le
  isProper hc := hab.isProper (hbc.isProper hc)

theorem withBox {box : Box ℝ k} (hle : box ≤ a.box) (hproper : a.box.IsProper → box.IsProper) :
    { a with box := box }.NarrowedFrom a :=
  ⟨rfl, hle, hproper⟩

theorem markInfeasible (h : a.NarrowedFrom b) : a.markInfeasible.NarrowedFrom b where
  frame := by
    rw [h.frame]
    rfl
  box_le := h.box_le
  isProper := h.isProper

theorem priority_eq (h : a.NarrowedFrom b) : a.priority = b.priority := by
  rw [h.frame]

theorem depth_eq (h : a.NarrowedFrom b) : a.depth = b.depth := by
  rw [h.frame]

end Node.NarrowedFrom

/-- A feasible point that is no worse than the incumbent. -/
def Problem.IsUseful (p : Problem ℝ) (progress : Progress EReal π) (x : Vector ℝ p.size) : Prop :=
  x ∈ p.feasibleSet ∧
    (progress.hasIncumbent = true → p.objective.eval x ≤ progress.incumbentValue.toReal)

/-- The points at which no constraint, and no objective cut that is used, is violated by more than a
tolerance. -/
def Problem.toleratedSet (p : Problem ℝ) (progress : Progress EReal π) (usesCut : Bool) (tol : ℝ) :
    Set (Vector ℝ p.size) :=
  {x | (∀ g ∈ p.constraints, g.eval x ≤ tol) ∧ (∀ h ∈ p.equalities, |h.eval x| ≤ tol) ∧
    (usesCut = true → progress.hasIncumbent = true →
      ∃ v : ℝ, progress.incumbentValue = v ∧ p.objective.eval x ≤ v + tol)}

namespace Propagator

def IsNarrowing (propagate : Propagator ℝ EReal k π σ) : Prop :=
  ∀ ⦃node progress s r⦄, propagate node progress s = .ok r → r.node.NarrowedFrom node

/-- Useful points stay in the box, and the node stays open as long as there is one. -/
def IsConservative (p : Problem ℝ) (propagate : Propagator ℝ EReal p.stored π σ) : Prop :=
  ∀ ⦃node progress s r⦄, propagate node progress s = .ok r →
    ∀ ⦃x⦄, p.IsUseful progress x → x ∈ p.restrictBox node.box →
      r.isOpen = true ∧ x ∈ p.restrictBox r.node.box

theorem none_isNarrowing : (none : Propagator ℝ EReal k π σ).IsNarrowing := by
  intro node progress s r hr
  cases hr
  exact .refl node

theorem none_isConservative (p : Problem ℝ) :
    (none : Propagator ℝ EReal p.stored π σ).IsConservative p := by
  intro node progress s r hr x _ hbox
  cases hr
  exact ⟨rfl, hbox⟩

/-- A run of a sequence ends with its first member, or goes on with the node that one left. -/
theorem sequence_cons_eq_ok {α β : Type} {first : Propagator α β k π σ}
    {rest : List (Propagator α β k π σ)} {node : Node α β k} {progress : Progress β π} {s : σ}
    {r : Propagated α β k σ}
    (hr : sequence (first :: rest) node progress s = .ok r) :
    ∃ r₁, first node progress s = .ok r₁ ∧
      ((r₁.isOpen = false ∧ r = r₁) ∨
        ∃ r₂, r₁.isOpen = true ∧ sequence rest r₁.node progress r₁.solver = .ok r₂ ∧
          r.node = r₂.node ∧ r.isOpen = r₂.isOpen) := by
  obtain ⟨r₁, hfirst, hr⟩ := bind_eq_ok_iff.mp hr
  refine ⟨r₁, hfirst, ?_⟩
  cases hopen : r₁.isOpen with
  | false =>
      rw [hopen] at hr
      cases hr
      exact Or.inl ⟨rfl, rfl⟩
  | true =>
      rw [hopen] at hr
      obtain ⟨r₂, hrest, hr⟩ := bind_eq_ok_iff.mp hr
      cases hr
      exact Or.inr ⟨r₂, rfl, hrest, rfl, rfl⟩

theorem sequence_isNarrowing {l : List (Propagator ℝ EReal k π σ)}
    (hl : ∀ propagate ∈ l, propagate.IsNarrowing) : (sequence l).IsNarrowing := by
  induction l with
  | nil => exact none_isNarrowing
  | cons first rest ih =>
      intro node progress s r hr
      obtain ⟨r₁, hfirst, hr⟩ := sequence_cons_eq_ok hr
      have hnarrow := hl first List.mem_cons_self hfirst
      rcases hr with ⟨_, rfl⟩ | ⟨r₂, _, hrest, hnode, _⟩
      · exact hnarrow
      · rw [hnode]
        exact (ih (fun q hq ↦ hl q (List.mem_cons_of_mem first hq)) hrest).trans hnarrow

theorem sequence_isConservative {p : Problem ℝ} {l : List (Propagator ℝ EReal p.stored π σ)}
    (hl : ∀ propagate ∈ l, propagate.IsConservative p) : (sequence l).IsConservative p := by
  induction l with
  | nil => exact none_isConservative p
  | cons first rest ih =>
      intro node progress s r hr x hx hbox
      obtain ⟨r₁, hfirst, hr⟩ := sequence_cons_eq_ok hr
      obtain ⟨hopen, hbox⟩ := hl first List.mem_cons_self hfirst hx hbox
      rcases hr with ⟨hclosed, _⟩ | ⟨r₂, _, hrest, hnode, hopen'⟩
      · rw [hclosed] at hopen
        cases hopen
      · rw [hnode, hopen']
        exact ih (fun q hq ↦ hl q (List.mem_cons_of_mem first hq)) hrest hx hbox

end Propagator

/-! ## The steps propagators share -/

namespace Node

/-- Ends clamped between bounds of any kind are real as soon as they do not cross. -/
theorem exists_clampedSide {side : Interval ℝ} {lower upper : EReal}
    (hle : max (side.lo : EReal) lower ≤ min (side.hi : EReal) upper) :
    ∃ clamped : Interval ℝ, max (side.lo : EReal) lower = clamped.lo ∧
      min (side.hi : EReal) upper = clamped.hi ∧ clamped ≤ side ∧ clamped.lo ≤ clamped.hi := by
  obtain ⟨lo, hlo, hlower, -⟩ := exists_coe_of_between (le_max_left (side.lo : EReal) lower)
    (hle.trans (min_le_left _ _))
  obtain ⟨hi, hhi, -, hupper⟩ := exists_coe_of_between ((le_max_left _ _).trans hle)
    (min_le_left (side.hi : EReal) upper)
  refine ⟨⟨lo, hi⟩, hlo, hhi, ⟨hlower, hupper⟩, ?_⟩
  rw [hlo, hhi] at hle
  exact EReal.coe_le_coe_iff.mp hle

/-- Clamping leaves the node as it is, or cuts one side off at the priority and at the bound. -/
theorem clampAt_cases {node node' : Node ℝ EReal k} {place : Option Int} {v : EReal}
    (h : node.clampAt place v = .ok node') : node' = node ∨
      ∃ t ∈ place, ∃ i ∈ position? k t, ∃ side : Interval ℝ,
        node' = { node with box := node.box.setSide i side } ∧
        (side.lo : EReal) = max ((node.box.side i).lo : EReal) node.priority ∧
        (side.hi : EReal) = min ((node.box.side i).hi : EReal) v ∧
        side ≤ node.box.side i ∧ side.lo ≤ side.hi := by
  cases place with
  | none =>
      cases h
      exact Or.inl rfl
  | some t =>
      simp only [clampAt] at h
      cases hi : position? k t with
      | none =>
          rw [hi] at h
          cases h
      | some i =>
          simp only [hi, Scalar.max_ereal, Scalar.min_ereal, ofNumber_eq_coe,
            toNumber_eq_toReal] at h
          cases h
          split
          · have hle : max ((node.box.side i).lo : EReal) node.priority ≤
                min ((node.box.side i).hi : EReal) v := ‹_›
            obtain ⟨side, hlo, hhi, hside, hproper⟩ := exists_clampedSide hle
            have hreal : (⟨(max ((node.box.side i).lo : EReal) node.priority).toReal,
                (min ((node.box.side i).hi : EReal) v).toReal⟩ : Interval ℝ) = side := by
              rw [hlo, hhi, EReal.toReal_coe, EReal.toReal_coe]
            exact Or.inr ⟨t, rfl, i, hi, side, hreal ▸ rfl, hlo.symm, hhi.symm, hside, hproper⟩
          · exact Or.inl rfl

theorem clampAt_eq_ok {node node' : Node ℝ EReal k} {place : Option Int} {v : EReal}
    (h : node.clampAt place v = .ok node') : node'.NarrowedFrom node ∧
      (node' = node ∨ ∃ t ∈ place, ∃ i ∈ position? k t, ∃ side,
        node' = { node with box := node.box.setSide i side }) := by
  rcases clampAt_cases h with rfl | ⟨t, ht, i, hi, side, rfl, -, -, hside, hproper⟩
  · exact ⟨.refl _, Or.inl rfl⟩
  · refine ⟨?_, Or.inr ⟨t, ht, i, hi, side, rfl⟩⟩
    exact .withBox (Box.setSide_le hside) fun hbox ↦ hbox.setSide hproper

theorem tighten?_eq_some {node node' : Node ℝ EReal k} {box : Box ℝ k}
    (h : node.tighten? box = some node') :
    node' = { node with box := node.box.inter box } ∧ node'.NarrowedFrom node := by
  simp only [tighten?] at h
  split at h
  · cases h
  · cases h
    refine ⟨rfl, .withBox (Box.inter_le_left _ _) fun _ ↦ ?_⟩
    exact Box.isCrossed_eq_false_iff.mp (Bool.eq_false_iff.mpr ‹_›)

end Node

namespace Problem

variable {p : Problem ℝ}

theorem tightenEpigraph_narrows {node node' : Node ℝ EReal p.stored} {v : EReal}
    (h : p.tightenEpigraph node v = .ok node') : node'.NarrowedFrom node :=
  (Node.clampAt_eq_ok h).1

/-- The range of an auxiliary epigraph variable does not show at the optimized variables. -/
theorem restrictBox_tightenEpigraph (hp : p.EpigraphIsAuxiliary)
    {node node' : Node ℝ EReal p.stored} {v : EReal} (h : p.tightenEpigraph node v = .ok node') :
    p.restrictBox node'.box = p.restrictBox node.box := by
  rcases (Node.clampAt_eq_ok h).2 with rfl | ⟨t, ht, i, hi, side, rfl⟩
  · rfl
  · exact restrictBox_setSide (hp t ht i hi) node.box side

/-- The objective cut that holds at points no worse than the incumbent. -/
noncomputable def objectiveCut {n : Nat} (objective : Quadratic ℝ n) (progress : Progress EReal π) :
    List (Quadratic ℝ n) :=
  if progress.hasIncumbent then [objective.subConst progress.incumbentValue.toReal] else []

@[simp] theorem objectiveCut?_eq_ok {n : Nat} (objective : Quadratic ℝ n)
    (progress : Progress EReal π) :
    objectiveCut? objective progress = .ok (objectiveCut objective progress) := by
  unfold objectiveCut? objectiveCut
  split <;> simp

theorem eval_le_of_mem_objectiveCut {n : Nat} {objective : Quadratic ℝ n}
    {progress : Progress EReal π} {x : Vector ℝ n} {tol : ℝ} (hx : progress.hasIncumbent = true →
      objective.eval x ≤ progress.incumbentValue.toReal + tol) :
    ∀ g ∈ objectiveCut objective progress, g.eval x ≤ tol := by
  intro g hg
  unfold objectiveCut at hg
  split at hg
  · rw [List.mem_singleton.mp hg, Quadratic.eval_subConst]
    linarith [hx ‹_›]
  · cases hg

end Problem

end GlobalQcqp
