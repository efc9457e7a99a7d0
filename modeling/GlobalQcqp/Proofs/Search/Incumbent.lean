import GlobalQcqp.Proofs.Epigraph
import GlobalQcqp.Proofs.Search.Nodes
import GlobalQcqp.Proofs.Search.Results
import GlobalQcqp.Proofs.Search.Stages
/-!
# Certified incumbents

The point of an incumbent goes from its candidate into stored order, gets the middle of the node's
box at the auxiliary variables and its value at the epigraph variable.  Every node stays inside the
root box, so the stored point does too, and at the optimized variables it is the candidate again.
Only a strictly better candidate replaces an incumbent.
-/

namespace GlobalQcqp

variable {σ : Type} {p : Problem ℝ}

/-! ## Stored points -/

theorem Box.mem_set {n : ℕ} {b : Box ℝ n} {x : Vector ℝ n} (hx : x ∈ b) {i : Fin n} {a : ℝ}
    (ha : a ∈ b.side i) : x.set i a i.isLt ∈ b := by
  intro j
  simp only [getElem_fin, Vector.getElem_set]
  split
  · have hij : i = j := Fin.ext ‹i.val = j.val›
    exact hij ▸ ha
  · exact hx j

namespace Problem

theorem restrict_set_of_auxiliary {s : Fin p.stored} (hs : p.variableAt? s = none)
    (v : Vector ℝ p.stored) (a : ℝ) : p.restrict (v.set s a s.isLt) = p.restrict v := by
  refine Vector.ext fun i hi ↦ ?_
  have hne : s.val ≠ p.places[i].val := by
    intro heq
    have hplace : p.places[(⟨i, hi⟩ : Fin p.size)] = s := (Fin.ext heq).symm
    rw [← hplace, variableAt?_places] at hs
    cases hs
  simp [restrict, Vector.getElem_set_ne, hne]

theorem scatter_mem {b : Box ℝ p.stored} {base : Vector ℝ p.stored} {x : Vector ℝ p.size}
    (hbase : base ∈ b) (hx : x ∈ p.restrictBox b) : p.scatter base x ∈ b := by
  intro s
  rw [getElem_scatter]
  cases hs : p.variableAt? s with
  | none => exact hbase s
  | some i =>
      have hi := hx i
      rw [side_restrictBox, p.places_of_variableAt? hs] at hi
      exact hi

theorem isFeasible_of_mem {tol : ℝ} {x : Vector ℝ p.size} (hx : x ∈ p.restrictBox p.box)
    (hviolation : p.violation x ≤ tol) : p.isFeasible tol x = true := by
  have htol := (violation_le_iff.mp hviolation).1
  have hinside : (p.restrictBox p.box).isMissedBy tol x = false := by
    refine List.any_eq_false.mpr fun i _ ↦ ?_
    obtain ⟨hlo, hhi⟩ := hx i
    have hlo : (p.restrictBox p.box).lower[i] ≤ x[i] := hlo
    have hhi : x[i] ≤ (p.restrictBox p.box).upper[i] := hhi
    simp only [Bool.or_eq_true, decide_eq_true_eq, not_or, not_lt]
    constructor
    · linarith
    · linarith
  simp [isFeasible, isFeasibleIn, hinside, hviolation]

/-- The stored point is in the root box, it is feasible within the tolerance at the optimized
variables, and the value is the objective there. -/
structure IsCertified (p : Problem ℝ) (tol : ℝ) (x : Vector ℝ p.stored) (value : EReal) :
    Prop where
  value_eq : value = (p.objective.eval (p.restrict x) : ℝ)
  restrict_mem : p.restrict x ∈ p.restrictBox p.box
  violation_le : p.violation (p.restrict x) ≤ tol
  isFeasible : p.isFeasible tol (p.restrict x) = true
  mem : x ∈ p.box
  epigraph_eq : ∀ place ∈ p.epigraph, ∃ s, position? p.stored place = some s ∧ value = (x[s] : ℝ)

/-- The range of an epigraph variable that was added holds every objective value. -/
theorem EpigraphIsAdded.eval_mem_side (hp : p.EpigraphIsAdded) {place : Int}
    (hplace : place ∈ p.epigraph) {s : Fin p.stored} (hs : position? p.stored place = some s)
    {x : Vector ℝ p.size} (hx : x ∈ p.restrictBox p.box) : p.objective.eval x ∈ p.box.side s := by
  rcases hp.eq_objectiveRange with hnone | ⟨q, h, rfl⟩
  · rw [hnone] at hplace
    cases hplace
  · cases hplace
    cases hs.symm.trans (position?_last q.stored)
    rw [restrictBox_addEpigraph, dropLast_box] at hx
    rw [side_last]
    exact eval_mem_objectiveRange hx

end Problem

theorem Search.storedPoint_isCertified (hp : p.EpigraphIsAdded) {node : Node ℝ EReal p.stored}
    (hnode : node.IsInside) {tol : ℝ} {c : Candidate ℝ p.size}
    (hc : c.IsCertified p (p.restrictBox node.box) tol) {stored : Vector ℝ p.stored}
    (hstored : storedPoint p node c = .ok stored) :
    p.IsCertified tol stored (c.value : EReal) := by
  have hroot : c.point ∈ p.restrictBox p.box :=
    Box.mem_of_le (Problem.restrictBox_le hnode.box_le) hc.mem
  have hscatter : p.scatter node.box.midpoint c.point ∈ p.box :=
    Box.mem_of_le hnode.box_le (Problem.scatter_mem (Box.midpoint_mem hnode.isProper) hc.mem)
  -- whatever is stored, it is the candidate at the optimized variables
  have hcertified {x : Vector ℝ p.stored} (hx : p.restrict x = c.point) (hmem : x ∈ p.box)
      (hepigraph : ∀ place ∈ p.epigraph, ∃ s, position? p.stored place = some s ∧
        (c.value : EReal) = (x[s] : ℝ)) : p.IsCertified tol x (c.value : EReal) := by
    refine ⟨?_, ?_, ?_, ?_, hmem, hepigraph⟩
    · rw [hx, hc.value_eq]
    · rwa [hx]
    · rw [hx]
      exact hc.violation_le
    · rw [hx]
      exact Problem.isFeasible_of_mem hroot hc.violation_le
  have hrestrict := p.restrict_scatter node.box.midpoint c.point
  unfold storedPoint at hstored
  cases hplace : p.epigraph with
  | none =>
      rw [hplace] at hstored
      cases hstored
      refine hcertified hrestrict hscatter fun place hmem ↦ ?_
      rw [hplace] at hmem
      cases hmem
  | some place =>
      obtain ⟨s, hs, hauxiliary⟩ := hp.exists_position place hplace
      simp only [hplace, hs] at hstored
      cases hstored
      refine hcertified ?_ ?_ fun place' hmem ↦ ?_
      · rw [Problem.restrict_set_of_auxiliary hauxiliary, hrestrict]
      · refine Box.mem_set hscatter ?_
        rw [hc.value_eq]
        exact hp.eval_mem_side hplace hs hroot
      · rw [hplace] at hmem
        cases hmem
        exact ⟨s, hs, by simp⟩

/-! ## Updates -/

/-- The incumbent has been kept, or replaced by a certified point of a strictly smaller value. -/
inductive Problem.Updates (p : Problem ℝ) (tol : ℝ)
    (before after : Progress EReal (Vector ℝ p.stored)) : Prop
  | kept (h : after.KeepsIncumbent before)
  | improved {x} (hincumbent : after.incumbent = some x)
      (hcertified : p.IsCertified tol x after.incumbentValue)
      (hlt : after.incumbentValue < before.incumbentValue)
      (hupdates : after.incumbentUpdates = before.incumbentUpdates + 1)

namespace Problem.Updates

variable {tol : ℝ} {a b c : Progress EReal (Vector ℝ p.stored)}

theorem trans_kept (h : p.Updates tol a b) (hkept : c.KeepsIncumbent b) : p.Updates tol a c := by
  cases h with
  | kept h => exact .kept (hkept.trans h)
  | improved hincumbent hcertified hlt hupdates =>
      refine .improved (hkept.incumbent_eq.trans hincumbent) ?_ ?_ ?_
      · rwa [hkept.value_eq]
      · rwa [hkept.value_eq]
      · rwa [hkept.updates_eq]

theorem of_kept (hkept : b.KeepsIncumbent a) (h : p.Updates tol b c) : p.Updates tol a c := by
  cases h with
  | kept h => exact .kept (h.trans hkept)
  | improved hincumbent hcertified hlt hupdates =>
      refine .improved hincumbent hcertified ?_ ?_
      · rwa [← hkept.value_eq]
      · rwa [← hkept.updates_eq]

/-- An update leaves a certified incumbent certified. -/
theorem isCertified (h : p.Updates tol a b)
    (ha : ∀ x ∈ a.incumbent, p.IsCertified tol x a.incumbentValue) :
    ∀ x ∈ b.incumbent, p.IsCertified tol x b.incumbentValue := by
  intro x hx
  cases h with
  | kept h =>
      rw [h.incumbent_eq] at hx
      rw [h.value_eq]
      exact ha x hx
  | improved hincumbent hcertified _ _ =>
      rw [hincumbent] at hx
      cases hx
      exact hcertified

end Problem.Updates

namespace Ledger

variable {setup : Setup ℝ EReal σ p} {convex : ConvexSolver ℝ EReal p.size σ}
  {localSolver : LocalSolver ℝ p.size σ} {l l' : Ledger EReal p} {node : Node ℝ EReal p.stored}

theorem BoundAbove.updates (h : l.BoundAbove setup node l')
    (hstandard : setup.IsStandard convex localSolver) (hp : p.EpigraphIsAdded)
    (hnode : node.IsInside) :
    p.Updates setup.options.feasibilityTol l.progress l'.progress := by
  cases h with
  | missed => exact .kept ⟨rfl, rfl, rfl⟩
  | improved hfound hstored hlt =>
      have hcertified := hstandard.isCertified hnode.isProper hfound
      exact .improved rfl (Search.storedPoint_isCertified hp hnode hcertified hstored) hlt rfl

theorem Process.updates (h : l.Process setup node l')
    (hstandard : setup.IsStandard convex localSolver) (hp : p.EpigraphIsAdded)
    (hnode : node.IsInside) :
    p.Updates setup.options.feasibilityTol l.progress l'.progress := by
  cases h with
  | stale _ => exact .kept ⟨rfl, rfl, rfl⟩
  | closed _ _ => exact .kept ⟨rfl, rfl, rfl⟩
  | refuted _ _ _ _ => exact .kept ⟨rfl, rfl, rfl⟩
  | @bounded r bounded l₁ _ hr hopen hlower hstatus habove hend =>
      have hrefines : l.Refines setup node bounded := ⟨r, hr, hopen, hlower, hstatus⟩
      have hcounted : (l.countLower bounded.status).progress.KeepsIncumbent l.progress :=
        ⟨rfl, rfl, rfl⟩
      rcases habove with rfl | ⟨_, habove⟩
      · exact .kept (hend.keeps.trans hcounted)
      · have hupdates := habove.updates hstandard hp (hstandard.isInside_of_refines hrefines hnode)
        exact (hupdates.of_kept hcounted).trans_kept hend.keeps

end Ledger

namespace Search

variable {setup : Setup ℝ EReal σ p} {convex : ConvexSolver ℝ EReal p.size σ}
  {localSolver : LocalSolver ℝ p.size σ} {solver : σ}
  {s s₁ s₂ s₃ s₄ s' : Search ℝ EReal σ p} {node : Node ℝ EReal p.stored}

/-! ## Every state of a turn -/

/-- A turn keeps the incumbent or replaces it by a certified point of a smaller value, once at
most, whatever state it is in. -/
theorem Visits.updates (h : Visits setup s s') (hstandard : setup.IsStandard convex localSolver)
    (hp : p.EpigraphIsAdded) (hopen : ∀ node ∈ s.pool.nodes, node.IsInside) :
    p.Updates setup.options.feasibilityTol s.progress s'.progress := by
  cases h with
  | head => exact .kept (.refl _)
  | taken h => exact .kept h.keeps
  | tightened h => exact .kept h.keeps
  | bounded h => exact .kept h.keeps
  | searched h =>
      obtain ⟨hasks, habove⟩ := h
      obtain ⟨taken, hmem, l, hrefines⟩ := hasks.bounded.exists_refines hasks.status_ne
      have hnode := hstandard.isInside_of_refines hrefines (hopen taken hmem)
      exact ((boundAbove_ledger habove).updates hstandard hp hnode).of_kept hasks.bounded.keeps
  | processed h hprocess =>
      have hnode := hopen _ h.mem_pool
      exact ((process_ledger hprocess).updates hstandard hp hnode).of_kept h.keeps
  | next h =>
      obtain ⟨node, s₁, s₅, htakes, hprocess, rfl⟩ := exists_takes h
      have hnode := hopen _ htakes.mem_pool
      have hupdates := (process_ledger hprocess).updates hstandard hp hnode
      exact (hupdates.of_kept htakes.keeps).trans_kept (conclude_keeps setup s₅)

theorem AtLoopHead.isCertified (hs : AtLoopHead setup solver s)
    (hstandard : setup.IsStandard convex localSolver) (hp : p.EpigraphIsAdded) :
    ∀ x ∈ s.progress.incumbent,
      p.IsCertified setup.options.feasibilityTol x s.progress.incumbentValue := by
  induction hs with
  | start => nofun
  | next hs hturn ih =>
      have hopen := hs.forall_open hstandard.preserves_isInside
      exact ((Visits.next hturn).updates hstandard hp hopen).isCertified ih

end Search

namespace SearchTree

variable {t t' : SearchTree ℝ EReal σ p} {solver : σ} {result : SearchResult ℝ EReal p}
  {convex : ConvexSolver ℝ EReal p.size σ} {localSolver : LocalSolver ℝ p.size σ}

theorem hasIncumbent_of_converged (hsolve : t.solve solver = .ok (result, t'))
    (hstate : result.state = .converged) :
    ∃ s, t'.search = some s ∧ s.progress.hasIncumbent = true := by
  obtain ⟨head, time, -, hstops, -, s, hsearch, hledger⟩ := solve_eq_ok hsolve
  have hinc : head.progress.hasIncumbent = true := by
    rw [hstate] at hstops
    rcases hstops.converged with hgap | ⟨-, hinc, -⟩
    · exact Search.hasIncumbent_of_isGapClosed hgap
    · exact hinc
  exact ⟨s, hsearch, (congrArg (·.progress.hasIncumbent) hledger).trans hinc⟩

/-- Whatever the solvers answer, the incumbent is a certified point in every state of the search.
From loop head to loop head it is kept or replaced by one of a smaller value, and the result is the
last one. -/
theorem incumbents_certified (hstandard : t.setup.IsStandard convex localSolver)
    (hp : p.EpigraphIsAdded) :
    (∀ s s', Search.AtLoopHead t.setup solver s → Search.Visits t.setup s s' →
      (∀ x ∈ s'.progress.incumbent,
        p.IsCertified t.setup.options.feasibilityTol x s'.progress.incumbentValue) ∧
      p.Updates t.setup.options.feasibilityTol s.progress s'.progress) ∧
    ∀ result t', t.solve solver = .ok (result, t') → ∃ s, t'.search = some s ∧
      (∀ x ∈ s.progress.incumbent,
        p.IsCertified t.setup.options.feasibilityTol x s.progress.incumbentValue) ∧
      result.stored = s.progress.incumbent ∧
      result.point = s.progress.incumbent.map p.restrict ∧
      result.objectiveValue = s.progress.incumbent.map fun _ ↦ s.progress.incumbentValue := by
  refine ⟨fun s s' hs hvisits ↦ ?_, fun result t' hsolve ↦ ?_⟩
  · have hopen := hs.forall_open hstandard.preserves_isInside
    have hupdates := hvisits.updates hstandard hp hopen
    exact ⟨hupdates.isCertified (hs.isCertified hstandard hp), hupdates⟩
  · obtain ⟨head, time, hhead, -, hresult, s, hsearch, hledger⟩ := solve_eq_ok hsolve
    have hprogress : s.progress = { head.progress with elapsed := time } :=
      congrArg Ledger.progress hledger
    refine ⟨s, hsearch, ?_, ?_⟩
    · rw [hprogress]
      exact hhead.isCertified hstandard hp
    · rw [hprogress, hresult]
      exact ⟨rfl, rfl, rfl⟩

/-- On the line the search converges to a certified point. -/
theorem line_incumbent_certified : ∃ result t' s x, (Line.tree [] 1).solve () = .ok (result, t') ∧
    t'.search = some s ∧ s.progress.incumbent = some x ∧
    (Line.problem []).IsCertified 0 x s.progress.incumbentValue ∧
    result.point = some ((Line.problem []).restrict x) ∧
    result.objectiveValue = some s.progress.incumbentValue := by
  obtain ⟨result, t', s, hsolve, hstate, -, hsearch, -⟩ := Line.solve_converged
  obtain ⟨s', hsearch', hinc⟩ := hasIncumbent_of_converged hsolve hstate
  cases hsearch.symm.trans hsearch'
  obtain ⟨x, hx⟩ := Option.isSome_iff_exists.mp hinc
  obtain ⟨s', hsearch', hcertified, -, hpoint, hvalue⟩ := (incumbents_certified
    (t := Line.tree [] 1) Line.setup_isStandard Line.problem_epigraphIsAdded).2 result t' hsolve
  cases hsearch.symm.trans hsearch'
  rw [hx] at hpoint hvalue
  exact ⟨result, t', s, x, hsolve, hsearch, hx, hcertified x hx, hpoint, hvalue⟩

end SearchTree

end GlobalQcqp
