import GlobalQcqp.Proofs.Relaxation.Builder
import GlobalQcqp.Proofs.Search.Parts
import GlobalQcqp.Proofs.Search.SolverMap
/-!
# Searches on a builder

A search takes its relaxations from one builder, for its bounds as well as for its probes, and the
builder has made the relaxation of the root before the search starts.  It knows all the shifts then.
The search therefore never sees another builder, and does the same as the search that makes every
relaxation from nothing.
-/

namespace GlobalQcqp

variable {π σ : Type}

/-! ## The builder of a search -/

/-- The builder that is left by the relaxation of the root. -/
noncomputable def Problem.rootBuilder (p : Problem ℝ) (routine : EigenRoutine ℝ) : Builder ℝ :=
  ((p.buildRelaxation p.ownNames routine p.box).run .empty).2

theorem Problem.run_empty (p : Problem ℝ) (routine : EigenRoutine ℝ) :
    (p.buildRelaxation p.ownNames routine p.box).run .empty =
      (p.relaxation? routine (p.restrictBox p.box), p.rootBuilder routine) :=
  Prod.ext (Serves.empty.buildRelaxation_eq p.box) rfl

theorem Problem.run_rootBuilder (p : Problem ℝ) (routine : EigenRoutine ℝ)
    (box : Box ℝ p.stored) :
    (p.buildRelaxation p.ownNames routine box).run (p.rootBuilder routine) =
      (p.relaxation? routine (p.restrictBox box), p.rootBuilder routine) :=
  Serves.empty.buildRelaxation_again p.box box

/-! ## Parts on a builder -/

section

variable {α β : Type} [Scalar α] [Scalar β] [Extended α β]

/-- The propagator beside something that it does not look at. -/
def Propagator.beside {k : ℕ} (propagate : Propagator α β k π σ) (ω : Type) :
    Propagator α β k π (σ × ω) :=
  fun node progress s ↦ (propagate node progress s.1).map (·.mapSolver (·, s.2))

variable (p : Problem α) (routine : EigenRoutine α) (convex : ConvexSolver α β p.size σ)

/-- Probes over the relaxation that the builder makes. -/
def Optimality.onBuilder (settings : Optimality.Settings α) :
    Propagator α β p.stored π (σ × Builder α) := fun node progress s ↦ do
  let node ← p.tightenEpigraph node progress.incumbentValue
  if settings.maxDepth < node.depth then return ⟨node, true, [], s⟩
  let (made, kept) := (p.buildRelaxation p.ownNames routine node.box).run s.2
  let r ← probeSides settings p convex node progress (← made) s.1
  return r.mapSolver (·, kept)

/-- The parts that options ask for, on a builder.  They do not look at relaxations made without
it. -/
def Components.onBuilder (options : Options α β) (localSolver : LocalSolver α p.size σ) :
    Components α β (σ × Builder α) p where
  propagate :=
    let feasibility := (Feasibility.propagator (feasibilitySettings options) p).beside _
    let optimality := Optimality.onBuilder p routine convex (optimalitySettings options)
    match options.propagation with
    | .none => .none
    | .feasibility => feasibility
    | .optimality => optimality
    | .both => .sequence [feasibility, optimality]
  lower node _ s := do
    let (made, kept) := (p.buildRelaxation p.ownNames routine node.box).run s.2
    let r ← Lower.solve p convex options.lowerRetries node (← made) s.1
    return r.mapSolver (·, kept)
  upper node s :=
    (boundAbove p (some localSolver) options.feasibilityTol node s.1).mapSolver (·, s.2)

end

theorem Propagator.mapsTo_beside {α β ω : Type} {k : ℕ} (propagate : Propagator α β k π σ)
    (kept : ω) : propagate.MapsTo (·, kept) (propagate.beside ω) :=
  fun _ _ _ ↦ rfl

variable (p : Problem ℝ) (routine : EigenRoutine ℝ) (convex : ConvexSolver ℝ EReal p.size σ)

theorem Optimality.mapsTo_onBuilder (settings : Optimality.Settings ℝ) :
    Propagator.MapsTo (·, p.rootBuilder routine)
      (propagator settings routine p convex : Propagator ℝ EReal p.stored π σ)
      (onBuilder p routine convex settings) := by
  intro node progress s
  refine map_bind_eq (congrFun Except.map_id _) fun clamped _ ↦ ?_
  rw [id]
  split
  · rfl
  · rw [p.run_rootBuilder]
    refine map_bind_eq (congrFun Except.map_id _) fun c _ ↦ ?_
    rw [id]
    cases probeSides settings p convex clamped progress c s with
    | error cause => rfl
    | ok r => rfl

/-- On the builder of the root the parts answer as those without a builder, and leave it as it
is. -/
theorem Components.mapsTo_onBuilder (options : Options ℝ EReal)
    (localSolver : LocalSolver ℝ p.size σ) :
    (standard p options routine convex localSolver).MapsTo routine (·, p.rootBuilder routine)
      (onBuilder p routine convex options localSolver) where
  propagate := by
    simp only [onBuilder, standard, propagator]
    cases options.propagation with
    | none => exact Propagator.none_mapsTo
    | feasibility => exact Propagator.mapsTo_beside _ _
    | optimality => exact Optimality.mapsTo_onBuilder p routine convex _
    | both =>
        refine Propagator.sequence_mapsTo (.cons ?_ (.cons ?_ .nil))
        · exact Propagator.mapsTo_beside _ _
        · exact Optimality.mapsTo_onBuilder p routine convex _
  lower {node c} hc s := by
    simp only [onBuilder, standard, p.run_rootBuilder, hc, ok_bind]
    cases Lower.solve p convex options.lowerRetries node c s with
    | error cause => rfl
    | ok r => rfl
  upper _ _ := rfl

/-! ## Searches -/

variable {p} {setup : Setup ℝ EReal σ p} {localSolver : LocalSolver ℝ p.size σ}

namespace SearchTree

/-- On the builder that the relaxation of the root leaves, a search has the loop heads and the
result of the search that makes every relaxation from nothing, and at every loop head it has that
builder still. -/
theorem solve_onBuilder (hstandard : setup.IsStandard convex localSolver) (solver : σ) :
    ∃ c b, (p.buildRelaxation p.ownNames setup.routine p.box).run .empty = (.ok c, b) ∧
      let setup' := setup.withParts
        (Components.onBuilder p setup.routine convex setup.options localSolver)
      (∀ s', Search.AtLoopHead setup' (solver, b) s' ↔
        ∃ s, Search.AtLoopHead setup solver s ∧ s.mapSolver (·, b) = s') ∧
      (solve ⟨setup', .initialized, none⟩ (solver, b)).map (·.1) =
        (solve ⟨setup, .initialized, none⟩ solver).map (·.1) := by
  have hparts : setup.parts.MapsTo setup.routine (·, p.rootBuilder setup.routine)
      (Components.onBuilder p setup.routine convex setup.options localSolver) := by
    rw [hstandard]
    exact Components.mapsTo_onBuilder p setup.routine convex setup.options localSolver
  refine ⟨p.relaxation setup.routine (p.restrictBox p.box), p.rootBuilder setup.routine, ?_,
    fun s' ↦ ⟨fun hs ↦ ?_, ?_⟩, ?_⟩
  · rw [p.run_empty, p.relaxation?_eq_ok]
  · exact hs.exists_mapSolver hparts
  · rintro ⟨s, hs, rfl⟩
    exact hs.mapSolver hparts
  · exact solve_withParts hparts solver

end SearchTree

end GlobalQcqp
