import GlobalQcqp.Proofs.Epigraph.Node
import GlobalQcqp.Proofs.Search.Nodes
/-!
# Parts without the added variable

The parts of a search see the added variable only where they read the whole stored vector, and give
nothing away of what they see there.  They do the same to a node and to the node without it, and
call the solvers with the same arguments.
-/

namespace GlobalQcqp

section

variable {α β π π' σ : Type} {k : Nat}

/-- The progress with another form of the incumbent. -/
def Progress.map (f : π → π') (s : Progress β π) : Progress β π' where
  incumbentValue := s.incumbentValue
  incumbent := s.incumbent.map f
  lowerBound := s.lowerBound
  iterations := s.iterations
  nodesCreated := s.nodesCreated
  nodesPruned := s.nodesPruned
  nodesInfeasible := s.nodesInfeasible
  lowerFailures := s.lowerFailures
  lowerSolves := s.lowerSolves
  upperSolves := s.upperSolves
  incumbentUpdates := s.incumbentUpdates
  resolutionBound := s.resolutionBound
  resolutionNodes := s.resolutionNodes
  elapsed := s.elapsed

@[simp] theorem Progress.hasIncumbent_map (f : π → π') (s : Progress β π) :
    (s.map f).hasIncumbent = s.hasIncumbent :=
  Option.isSome_map

@[simp] theorem Progress.relativeGap_map [Scalar α] [Scalar β] [Extended α β] (f : π → π')
    (s : Progress β π) : (s.map f).relativeGap = s.relativeGap := by
  unfold relativeGap
  rw [hasIncumbent_map]
  rfl

/-- A search announces how many variables its problem stores; other notices do not depend on it. -/
def Notice.dropLast : Notice β → Notice β
  | .started size stored constraints equalities =>
    .started size (stored - 1) constraints equalities
  | n => n

def Propagated.dropLast (r : Propagated α β (k + 1) σ) : Propagated α β k σ where
  node := r.node.dropLast
  isOpen := r.isOpen
  notices := r.notices.map Notice.dropLast
  solver := r.solver

@[simp] theorem Propagated.isOpen_dropLast (r : Propagated α β (k + 1) σ) :
    r.dropLast.isOpen = r.isOpen :=
  rfl

def Lowered.dropLast (r : Lowered α β (k + 1) σ) : Lowered α β k σ where
  node := r.node.dropLast
  notices := r.notices.map Notice.dropLast
  solver := r.solver

@[simp] theorem Lowered.status_dropLast (r : Lowered α β (k + 1) σ) :
    r.dropLast.node.status = r.node.status :=
  rfl

end

variable {π π' σ : Type} {p : Problem ℝ} {range : Interval ℝ} {h : ¬ range.hi < range.lo}
  {node : Node ℝ EReal (p.stored + 1)}

/-! ## Tightening -/

namespace Propagator

/-- The propagator does to a node what the other one does to the node without the last variable. -/
def Extends {k : Nat} (propagate : Propagator ℝ EReal (k + 1) π' σ)
    (propagate' : Propagator ℝ EReal k π σ) (f : π' → π) : Prop :=
  ∀ ⦃node : Node ℝ EReal (k + 1)⦄, node.box.IsProper → ∀ progress s,
    (propagate node progress s).map Propagated.dropLast =
      propagate' node.dropLast (progress.map f) s

end Propagator

theorem Problem.objectiveCut_map {n : Nat} (objective : Quadratic ℝ n) (f : π' → π)
    (progress : Progress EReal π') :
    objectiveCut objective (progress.map f) = objectiveCut objective progress := by
  rw [objectiveCut, Progress.hasIncumbent_map]
  rfl

theorem Feasibility.propagator_extends (hp : p.epigraph = none) (settings : Settings ℝ)
    (f : π' → π) : Propagator.Extends (σ := σ) (propagator settings (p.addEpigraph range h))
      (propagator settings p) f := by
  intro node hnode progress s
  obtain ⟨clamped, hclamped, hnarrowed, hdrop⟩ :=
    Problem.exists_tightenEpigraph (h := h) node progress.incumbentValue
  have hproper := hnarrowed.isProper hnode
  have hfunctions : functions settings (p.addEpigraph range h) progress =
      functions settings p (progress.map f) := by
    simp only [functions, Problem.objectiveCut_map]
    rfl
  have hsides : ((p.addEpigraph range h).restrictBox clamped.box).sides =
      (p.restrictBox node.dropLast.box).sides := by
    rw [p.restrictBox_addEpigraph, ← hdrop]
    rfl
  rw [propagator, propagator, hclamped, Problem.tightenEpigraph_of_none hp, ok_bind, ok_bind,
    functions?_eq_ok, functions?_eq_ok, ok_bind, ok_bind, hfunctions, hsides, ← hdrop]
  split
  · rfl
  · refine map_bind_eq (congrFun Except.map_id _) fun found _ ↦ ?_
    cases found with
    | none => rfl
    | some sides =>
        simp only [id, ← p.dropLast_tighten?_scatterBox (h := h) hproper]
        cases clamped.tighten?
          ((p.addEpigraph range h).scatterBox clamped.box (.ofSides sides)) with
        | none => rfl
        | some tightened => rfl

theorem Optimality.propagator_extends (hp : p.epigraph = none) (settings : Settings ℝ)
    (routine : EigenRoutine ℝ) (solver : ConvexSolver ℝ EReal p.size σ) (f : π' → π) :
    Propagator.Extends (propagator settings routine (p.addEpigraph range h) solver)
      (propagator settings routine p solver) f := by
  intro node hnode progress s
  obtain ⟨clamped, hclamped, hnarrowed, hdrop⟩ :=
    Problem.exists_tightenEpigraph (h := h) node progress.incumbentValue
  have hproper := hnarrowed.isProper hnode
  have hrelaxation (box : Box ℝ p.size) : (p.addEpigraph range h).relaxation routine box =
      p.relaxation routine box := rfl
  have hprobed (i : Fin p.size) :
      (p.addEpigraph range h).branchable[(p.addEpigraph range h).places[i]] =
        p.branchable[p.places[i]] := by
    rw [p.getElem_places_addEpigraph]
    exact Vector.getElem_push_lt _
  have hdepth : clamped.dropLast.depth = clamped.depth := rfl
  have hbox : clamped.box.dropLast = clamped.dropLast.box := rfl
  rw [propagator, propagator, hclamped, Problem.tightenEpigraph_of_none hp, ok_bind, ok_bind,
    ← hdrop, hdepth]
  split
  · rfl
  · simp only [Problem.relaxation?_eq_ok, probeSides, Problem.objectiveCut?_eq_ok, ok_bind,
      p.restrictBox_addEpigraph, hbox, hrelaxation, Problem.objectiveCut_map, hprobed]
    generalize tightenSides solver settings _ _ _ _ s = found
    obtain ⟨box, s'⟩ := found
    cases box with
    | none => rfl
    | some box =>
        have htighten := p.dropLast_tighten?_scatterBox (h := h) hproper box
        simp only [← htighten, Option.getD_map]
        rfl

namespace Propagator

variable {k : Nat} {f : π' → π}

theorem none_extends : Extends (none : Propagator ℝ EReal (k + 1) π' σ) none f :=
  fun _ _ _ _ ↦ rfl

theorem sequence_extends {l : List (Propagator ℝ EReal (k + 1) π' σ)}
    {l' : List (Propagator ℝ EReal k π σ)} (hl : List.Forall₂ (Extends · · f) l l')
    (hnarrowing : ∀ propagate ∈ l, propagate.IsNarrowing) :
    Extends (sequence l) (sequence l') f := by
  induction hl with
  | nil => exact none_extends
  | @cons first first' rest rest' hfirst _ ih =>
      intro node hnode progress s
      rw [sequence, sequence]
      refine map_bind_eq (hfirst hnode progress s) fun r hr ↦ ?_
      have hproper := (hnarrowing first List.mem_cons_self hr).isProper hnode
      have hrest := ih fun q hq ↦ hnarrowing q (List.mem_cons_of_mem first hq)
      rw [Propagated.isOpen_dropLast]
      split
      · refine map_bind_eq (hrest hproper progress r.solver) fun r' _ ↦ congrArg Except.ok ?_
        simp only [Propagated.dropLast, List.map_append]
      · rfl

end Propagator

theorem Components.propagator_extends (hp : p.epigraph = none) (options : Options ℝ EReal)
    (routine : EigenRoutine ℝ) (convex : ConvexSolver ℝ EReal p.size σ) :
    Propagator.Extends (propagator (p.addEpigraph range h) options routine convex)
      (propagator p options routine convex) dropLast := by
  unfold propagator
  cases options.propagation with
  | none => exact Propagator.none_extends
  | feasibility => exact Feasibility.propagator_extends hp _ dropLast
  | optimality => exact Optimality.propagator_extends hp _ routine convex dropLast
  | both =>
      refine Propagator.sequence_extends (.cons ?_ (.cons ?_ .nil)) ?_
      · exact Feasibility.propagator_extends hp _ dropLast
      · exact Optimality.propagator_extends hp _ routine convex dropLast
      · simpa using ⟨Feasibility.propagator_isNarrowing, Optimality.propagator_isNarrowing⟩

/-! ## Bounds from relaxations -/

theorem Problem.restrict?_pop {x : Array ℝ} (hx : x.size = p.stored + 1) :
    (p.addEpigraph range h).restrict? x = p.restrict? x.pop := by
  have hvector := (p.addEpigraph range h).restrict?_toArray (⟨x, hx⟩ : Vector ℝ (p.stored + 1))
  have hdropped := p.restrict?_toArray (dropLast (⟨x, hx⟩ : Vector ℝ (p.stored + 1)))
  rw [toArray_dropLast] at hdropped
  rw [hvector, p.restrict_addEpigraph]
  exact hdropped.symm

namespace Lower

theorem map_dropLast_retry {n : Nat} (solver : ConvexSolver ℝ EReal n σ) (c : ConvexProblem ℝ n)
    (id : Int) (left : Nat) (answer : ConvexAnswer ℝ EReal) (s : σ) :
    (retry solver c id left answer s).1.map Notice.dropLast =
      (retry solver c id left answer s).1 := by
  induction left generalizing answer s with
  | zero => rfl
  | succ left ih =>
      simp only [retry]
      split
      · exact congrArg (_ :: ·) (ih _ _)
      · rfl

variable (hsize : ∀ x ∈ node.relaxed, x.size = p.stored + 1)

include hsize

theorem dropLast_warmStart : dropLast (warmStart node) = warmStart node.dropLast := by
  unfold warmStart
  cases hrelaxed : node.relaxed with
  | none =>
      simp only [Node.dropLast, hrelaxed]
      exact Box.dropLast_midpoint node.box
  | some x =>
      have hx := hsize x hrelaxed
      have hpop : x.pop.size = p.stored := by simp [hx]
      simp only [Node.dropLast, hrelaxed, Option.map_some, dif_pos hx, dif_pos hpop]
      exact Vector.toArray_inj.mp (toArray_dropLast (⟨x, hx⟩ : Vector ℝ (p.stored + 1)))

theorem dropLast_writeBack (x : Array ℝ) :
    (writeBack (p.addEpigraph range h) node x).map dropLast = writeBack p node.dropLast x := by
  by_cases hx : x.size = p.size
  · obtain ⟨y, rfl⟩ : ∃ y : Vector ℝ p.size, x = y.toArray := ⟨⟨x, hx⟩, rfl⟩
    have hbefore := writeBack_toArray (p.addEpigraph range h) node y
    rw [hbefore, writeBack_toArray p, ← dropLast_warmStart hsize, ← p.dropLast_scatter (h := h)]
    exact congrArg Except.ok (Box.dropLast_clamp node.box _)
  · rw [writeBack, writeBack, dif_neg hx, dif_neg hx]
    rfl

theorem dropLast_record (answer : ConvexAnswer ℝ EReal) :
    Prod.map Node.dropLast (List.map Notice.dropLast) (record (p.addEpigraph range h) node answer) =
      record p node.dropLast answer := by
  have hpoint (x : Array ℝ) := dropLast_writeBack (h := h) hsize x
  unfold record
  cases answer.status with
  | unsolved => rfl
  | infeasible => rfl
  | failed => rfl
  | feasible =>
      cases answer.point with
      | none => rfl
      | some x =>
          simp only [← hpoint]
          cases Scalar.isFinite answer.value with
          | false => rfl
          | true =>
              cases writeBack (p.addEpigraph range h) node x with
              | error cause => rfl
              | ok y =>
                  simp [Except.map, Node.dropLast, toArray_dropLast]

theorem dropLast_solve (solver : ConvexSolver ℝ EReal p.size σ) (retries : Nat)
    (c : ConvexProblem ℝ p.size) (s : σ) :
    (solve (p.addEpigraph range h) solver retries node c s).map Lowered.dropLast =
      solve p solver retries node.dropLast c s := by
  -- From the same start the two make the same calls and differ in what they record them on only.
  have hdone (start : Option (Vector ℝ p.size)) :
      let retried := retry solver c node.id retries (solver c start s).1 (solver c start s).2
      let before := record (p.addEpigraph range h) node retried.2.1
      let after := record p node.dropLast retried.2.1
      (⟨before.1, retried.1 ++ before.2, retried.2.2⟩ : Lowered ℝ EReal _ σ).dropLast =
        ⟨after.1, retried.1 ++ after.2, retried.2.2⟩ := by
    simp only [← dropLast_record (h := h) hsize, Lowered.dropLast, List.map_append,
      map_dropLast_retry]
    rfl
  unfold solve
  cases hnode : node.relaxed with
  | none =>
      simp only [Node.relaxed_dropLast, hnode, Option.map_none]
      exact congrArg Except.ok (hdone none)
  | some x =>
      simp only [Node.relaxed_dropLast, hnode, Option.map_some,
        p.restrict?_pop (h := h) (hsize x hnode)]
      cases p.restrict? x.pop with
      | none => rfl
      | some y => exact congrArg Except.ok (hdone (some y))

end Lower

/-! ## Feasible points -/

theorem Candidate.best_addEpigraph (box : Box ℝ p.size) (tol : ℝ)
    (points : List (Vector ℝ p.size × Source)) :
    best (p.addEpigraph range h) box tol points = best p box tol points := by
  have hconsider (found : Option (Candidate ℝ p.size)) (x : Vector ℝ p.size × Source) :
      best.consider (p.addEpigraph range h) box tol found x = best.consider p box tol found x := by
    cases found with
    | none => rfl
    | some c => rfl
  exact congrArg (List.foldl · none points) (funext fun found ↦ funext (hconsider found))

/-- The local solver is given the same problem, and what it answers is judged in the same way. -/
theorem Candidate.search_addEpigraph (localSolver : LocalSolver ℝ p.size σ) (tol : ℝ) (id : Int)
    (box : Box ℝ p.size) (relaxed : Option (Vector ℝ p.size)) (s : σ) :
    (search (p.addEpigraph range h) (some localSolver) tol id box relaxed s :
      UpperOutcome ℝ EReal p.size σ) = search p (some localSolver) tol id box relaxed s := by
  have hproblem (start : Vector ℝ p.size) :
      (p.addEpigraph range h).localProblem box start = p.localProblem box start := rfl
  simp only [search, best_addEpigraph, hproblem]
  cases (localSolver (p.localProblem box (seed box relaxed)) s).1.point with
  | none => rfl
  | some x =>
      simp only
      cases fit p.size x with
      | error cause => rfl
      | ok y => rfl

theorem Components.boundAbove_dropLast (hsize : ∀ x ∈ node.relaxed, x.size = p.stored + 1)
    (localSolver : LocalSolver ℝ p.size σ) (tol : ℝ) (s : σ) :
    (boundAbove (p.addEpigraph range h) (some localSolver) tol node s :
      UpperOutcome ℝ EReal p.size σ) = boundAbove p (some localSolver) tol node.dropLast s := by
  simp only [boundAbove, p.restrictBox_addEpigraph]
  cases hnode : node.relaxed with
  | none =>
      simp only [Node.relaxed_dropLast, hnode, Option.map_none]
      exact Candidate.search_addEpigraph localSolver tol node.id _ none s
  | some x =>
      simp only [Node.relaxed_dropLast, hnode, Option.map_some,
        p.restrict?_pop (h := h) (hsize x hnode)]
      cases p.restrict? x.pop with
      | none => rfl
      | some y => exact Candidate.search_addEpigraph localSolver tol node.id _ (some y) s

theorem Components.map_dropLast_boundAbove (localSolver : LocalSolver ℝ p.size σ) (tol : ℝ)
    (node : Node ℝ EReal p.stored) (s : σ) :
    (boundAbove p (some localSolver) tol node s : UpperOutcome ℝ EReal p.size σ).notices.map
      Notice.dropLast = (boundAbove p (some localSolver) tol node s).notices := by
  have hsearch (box : Box ℝ p.size) (x : Option (Vector ℝ p.size)) :
      (Candidate.search p (some localSolver) tol node.id box x s :
        UpperOutcome ℝ EReal p.size σ).notices.map Notice.dropLast =
          (Candidate.search p (some localSolver) tol node.id box x s).notices := by
    simp only [Candidate.search]
    split
    · rfl
    · split
      · rfl
      · rfl
  simp only [boundAbove]
  split
  · exact hsearch _ none
  · split
    · rfl
    · exact hsearch _ (some _)

/-- The added variable takes the value, and the others what they take without it. -/
theorem Search.dropLast_storedPoint (hp : p.epigraph = none) (c : Candidate ℝ p.size) :
    (storedPoint (p.addEpigraph range h) node c).map GlobalQcqp.dropLast =
      storedPoint p node.dropLast c := by
  have hstored := p.dropLast_scatter (h := h) node.box.midpoint c.point
  rw [Box.dropLast_midpoint] at hstored
  simp only [storedPoint, hp, Problem.position?_last]
  refine congrArg Except.ok ?_
  exact (dropLast_set_last _ _).trans hstored

end GlobalQcqp
