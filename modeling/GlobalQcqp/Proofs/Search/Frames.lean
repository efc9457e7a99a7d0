import GlobalQcqp.Proofs.Node.LowerBound.Calls
import GlobalQcqp.Proofs.Search.Step
import GlobalQcqp.Proofs.Tightening
import GlobalQcqp.Search.Tree
/-!
# What the standard parts leave alone

Whatever the numbers and whatever the solvers answer, a propagator changes nothing of a node but its
box and the record of a refutation, and a lower solve nothing but the bound, the relaxed point and
the status.  So the depths of a search change only where a node is split, and its halves lie one
level deeper than it does; and a relaxed point is always a vector over the stored variables.
-/

namespace GlobalQcqp

variable {α β π σ : Type}

/-! ## Propagators -/

/-- The node is another one with a box of its own, and perhaps a refutation recorded on it. -/
def Node.ReshapedFrom {k : ℕ} (node before : Node α β k) : Prop :=
  node = { before with
    box := node.box
    lowerBound := node.lowerBound
    status := node.status }

namespace Node.ReshapedFrom

variable {k : ℕ} {a b c : Node α β k}

theorem refl (a : Node α β k) : a.ReshapedFrom a :=
  rfl

theorem trans (hab : a.ReshapedFrom b) (hbc : b.ReshapedFrom c) : a.ReshapedFrom c := by
  unfold ReshapedFrom at *
  rw [hab, hbc]

theorem priority_eq (h : a.ReshapedFrom b) : a.priority = b.priority := by
  rw [h]

theorem depth_eq (h : a.ReshapedFrom b) : a.depth = b.depth := by
  rw [h]

theorem relaxed_eq (h : a.ReshapedFrom b) : a.relaxed = b.relaxed := by
  rw [h]

end Node.ReshapedFrom

namespace Propagator

variable {k : ℕ}

def Reshapes (propagate : Propagator α β k π σ) : Prop :=
  ∀ ⦃node progress s r⦄, propagate node progress s = .ok r → r.node.ReshapedFrom node

theorem none_reshapes : (none : Propagator α β k π σ).Reshapes := by
  intro node progress s r hr
  cases hr
  exact .refl node

theorem sequence_reshapes {l : List (Propagator α β k π σ)}
    (hl : ∀ propagate ∈ l, propagate.Reshapes) : (sequence l).Reshapes := by
  induction l with
  | nil => exact none_reshapes
  | cons first rest ih =>
      intro node progress s r hr
      obtain ⟨r₁, hfirst, hr⟩ := sequence_cons_eq_ok hr
      have hreshaped := hl first List.mem_cons_self hfirst
      rcases hr with ⟨-, rfl⟩ | ⟨r₂, -, hrest, hnode, -⟩
      · exact hreshaped
      · rw [hnode]
        exact (ih (fun q hq ↦ hl q (List.mem_cons_of_mem first hq)) hrest).trans hreshaped

end Propagator

variable [Scalar α]

namespace Node

variable {k : ℕ} {node node' : Node α β k}

theorem reshapedFrom_of_tighten? {box : Box α k} (h : node.tighten? box = some node') :
    node'.ReshapedFrom node := by
  simp only [tighten?] at h
  split at h
  · cases h
  · cases h
    rfl

variable [Scalar β] [Extended α β]

theorem reshapedFrom_of_clampAt {place : Option ℤ} {v : β} (h : node.clampAt place v = .ok node') :
    node'.ReshapedFrom node := by
  unfold clampAt at h
  split at h
  · cases h
    rfl
  · split at h
    · cases h
    · cases h
      split <;> rfl

end Node

variable [Scalar β] [Extended α β] {p : Problem α}

theorem Feasibility.propagator_reshapes (settings : Feasibility.Settings α) :
    (Feasibility.propagator settings p : Propagator α β p.stored π σ).Reshapes := by
  intro node progress s r hr
  obtain ⟨clamped, hclamp, hr⟩ := bind_eq_ok_iff.mp hr
  refine .trans ?_ (Node.reshapedFrom_of_clampAt hclamp)
  obtain ⟨qs, -, hr⟩ := bind_eq_ok_iff.mp hr
  split at hr
  · cases hr
    rfl
  · obtain ⟨sides, -, hr⟩ := bind_eq_ok_iff.mp hr
    split at hr
    · cases hr
      rfl
    · split at hr
      · cases hr
        exact Node.reshapedFrom_of_tighten? ‹_›
      · cases hr
        rfl

theorem Optimality.propagator_reshapes (settings : Optimality.Settings α)
    (routine : EigenRoutine α) (convex : ConvexSolver α β p.size σ) :
    (Optimality.propagator settings routine p convex :
      Propagator α β p.stored π σ).Reshapes := by
  intro node progress s r hr
  obtain ⟨clamped, hclamp, hr⟩ := bind_eq_ok_iff.mp hr
  refine .trans ?_ (Node.reshapedFrom_of_clampAt hclamp)
  split at hr
  · cases hr
    rfl
  · obtain ⟨relaxation, -, hr⟩ := bind_eq_ok_iff.mp hr
    obtain ⟨cut, -, hr⟩ := bind_eq_ok_iff.mp hr
    simp only at hr
    split at hr
    · cases hr
      rfl
    · rename_i box _ _
      cases hr
      cases htighten : clamped.tighten? (p.scatterBox clamped.box box) with
      | none => rfl
      | some node' => exact Node.reshapedFrom_of_tighten? htighten

/-! ## Standard parts -/

/-- No part changes the depth of a node. -/
structure Setup.KeepsDepths (setup : Setup α β σ p) : Prop where
  propagate : ∀ ⦃node progress s r⦄, setup.parts.propagate node progress s = .ok r →
    r.node.depth = node.depth
  lower : ∀ ⦃node c s r⦄, setup.parts.lower node c s = .ok r → r.node.depth = node.depth

theorem Components.propagator_reshapes {options : Options α β} {routine : EigenRoutine α}
    {convex : ConvexSolver α β p.size σ} : (propagator p options routine convex).Reshapes := by
  unfold propagator
  cases options.propagation with
  | none => exact Propagator.none_reshapes
  | feasibility => exact Feasibility.propagator_reshapes _
  | optimality => exact Optimality.propagator_reshapes _ _ _
  | both =>
      refine Propagator.sequence_reshapes fun propagate hmem ↦ ?_
      simp only [List.mem_cons, List.not_mem_nil, or_false] at hmem
      rcases hmem with rfl | rfl
      · exact Feasibility.propagator_reshapes _
      · exact Optimality.propagator_reshapes _ _ _

section

variable {setup : Setup α β σ p} {convex : ConvexSolver α β p.size σ}
  {localSolver : LocalSolver α p.size σ}
  (hparts : setup.parts = Components.standard p setup.options setup.routine convex localSolver)
include hparts

theorem Setup.reshapes : setup.parts.propagate.Reshapes := by
  rw [hparts]
  exact Components.propagator_reshapes

/-- What a lower solve leaves was recorded from an answer. -/
theorem Setup.exists_record {node : Node α β p.stored} {c : ConvexProblem α p.size} {s : σ}
    {r : Lowered α β p.stored σ} (hr : setup.parts.lower node c s = .ok r) :
    ∃ last, r.node = (Lower.record p node last).1 := by
  rw [hparts] at hr
  exact Lower.exists_record_of_solve hr

theorem Setup.keepsDepths : setup.KeepsDepths where
  propagate node progress s r hr := (reshapes hparts hr).depth_eq
  lower node c s r hr := by
    obtain ⟨last, hlast⟩ := exists_record hparts hr
    rw [hlast, Lower.record_frame]

end

/-! ## Relaxed points -/

/-- The relaxed point of the node, if there is one, has an entry for every stored variable. -/
def Node.StartsAtVector {k : ℕ} (node : Node α β k) : Prop :=
  ∀ x ∈ node.relaxed, x.size = k

theorem Lower.record_startsAtVector {node : Node α β p.stored} (h : node.StartsAtVector)
    (answer : ConvexAnswer α β) : (record p node answer).1.StartsAtVector := by
  unfold record
  split
  · exact h
  · split
    · split
      · exact h
      · rintro _ ⟨⟩
        exact Vector.size_toArray _
    · exact h
  · exact h

/-! ## Turns -/

namespace Ledger

variable {setup : Setup α β σ p} {l l' : Ledger β p} {node bounded left right : Node α β p.stored}

theorem Refines.depth_eq (h : l.Refines setup node bounded) (hkeeps : setup.KeepsDepths) :
    bounded.depth = node.depth := by
  obtain ⟨r, ⟨-, s, hr⟩, -, ⟨c, s', lowered, -, hlower, rfl⟩, -⟩ := h
  exact (hkeeps.lower hlower).trans (hkeeps.propagate hr)

/-- Nothing but the box, the depth and the age of a half is new. -/
theorem IsHalf.frame {half : Node α β p.stored} (h : IsHalf setup node half) :
    half = Node.fresh node.bound half.id (node.depth + 1) half.box node.relaxed := by
  obtain ⟨i, value, id, left, right, -, -, hsplit, rfl | rfl⟩ := h
  · cases Node.split?_eq_ok hsplit
    rfl
  · cases Node.split?_eq_ok hsplit
    rfl

end Ledger

/-- Every node of a standard search starts its relaxation from a vector over the stored
variables. -/
theorem Setup.preserves_startsAtVector {setup : Setup α β σ p}
    {convex : ConvexSolver α β p.size σ} {localSolver : LocalSolver α p.size σ}
    (hparts : setup.parts =
      Components.standard p setup.options setup.routine convex localSolver) :
    setup.Preserves Node.StartsAtVector where
  root := fun x hx ↦ absurd hx (Option.not_mem_none x)
  refine hnode hrefines := by
    obtain ⟨r, ⟨-, s, hr⟩, -, ⟨c, s', lowered, -, hlower, rfl⟩, -⟩ := hrefines
    obtain ⟨last, hlast⟩ := exists_record hparts hlower
    rw [hlast]
    refine Lower.record_startsAtVector ?_ last
    unfold Node.StartsAtVector
    rw [(reshapes hparts hr).relaxed_eq]
    exact hnode
  half hnode hhalf := by
    rw [hhalf.frame]
    exact hnode

end GlobalQcqp
