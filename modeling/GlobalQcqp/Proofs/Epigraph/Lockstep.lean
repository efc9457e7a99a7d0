import GlobalQcqp.Proofs.Epigraph.Search
/-!
# Searches in lockstep

Adding an epigraph variable changes nothing of a search that can be seen without it: not its loop
heads, not the nodes it takes, not the calls of its solvers and not its result.
-/

namespace GlobalQcqp

variable {σ : Type} {p : Problem ℝ} {range : Interval ℝ} {h : ¬ range.hi < range.lo}

/-! ## Calls -/

/-- What a search asks its solvers. -/
inductive SolverCall (n : ℕ) where
  | convex (problem : ConvexProblem ℝ n) (start : Option (Vector ℝ n))
  | localSearch (problem : LocalProblem ℝ n)

/-- Answers as the solver does and keeps a list of the calls, the last one first. -/
def ConvexSolver.recording {n : ℕ} (solver : ConvexSolver ℝ EReal n σ) :
    ConvexSolver ℝ EReal n (σ × List (SolverCall n)) :=
  fun c start s ↦
    let (answer, next) := solver c start s.1
    (answer, next, .convex c start :: s.2)

def LocalSolver.recording {n : ℕ} (solver : LocalSolver ℝ n σ) :
    LocalSolver ℝ n (σ × List (SolverCall n)) :=
  fun q s ↦
    let (answer, next) := solver q s.1
    (answer, next, .localSearch q :: s.2)

/-- The search with solvers that keep a list of their calls. -/
noncomputable def Setup.recording (setup : Setup ℝ EReal σ p)
    (convex : ConvexSolver ℝ EReal p.size σ) (localSolver : LocalSolver ℝ p.size σ) :
    Setup ℝ EReal (σ × List (SolverCall p.size)) p where
  options := setup.options
  routine := setup.routine
  parts := Components.standard p setup.options setup.routine convex.recording localSolver.recording
  clock := setup.clock
  isCancelled := setup.isCancelled

/-! ## Results -/

def SearchResult.dropLast (r : SearchResult ℝ EReal (p.addEpigraph range h)) :
    SearchResult ℝ EReal p where
  state := r.state
  objectiveValue := r.objectiveValue
  point := r.point
  stored := r.stored.map GlobalQcqp.dropLast
  lowerBound := r.lowerBound
  gap := r.gap
  relativeGap := r.relativeGap
  elapsed := r.elapsed

variable {setup : Setup ℝ EReal σ p} {convex : ConvexSolver ℝ EReal p.size σ}
  {localSolver : LocalSolver ℝ p.size σ} {solver : σ}

theorem Search.Takes.dropLast {s s₁ : Search ℝ EReal σ (p.addEpigraph range h)}
    {node : Node ℝ EReal (p.stored + 1)}
    (htakes : Takes (setup.addEpigraph convex localSolver range h) s node s₁) :
    Takes setup s.dropLast node.dropLast s₁.dropLast := by
  obtain @⟨polled, _, pool, hverdict, hpop⟩ := htakes
  have hverdict' := dropLast_verdict? setup convex localSolver
    (tick (setup.addEpigraph convex localSolver range h) s)
  rw [hverdict] at hverdict'
  have hpop' : polled.dropLast.pool.pop? = some (node.dropLast, pool.map Node.dropLast) := by
    refine polled.pool.pop?_map_dropLast.trans ?_
    rw [hpop]
    rfl
  exact .mk hverdict'.symm hpop'

namespace SearchTree

theorem dropLast_resultOf (state : RunState)
    (s : Progress EReal (Vector ℝ (p.addEpigraph range h).stored)) :
    (resultOf (p.addEpigraph range h) state s).dropLast =
      resultOf p state (s.map dropLast) := by
  have hrestrict : (p.addEpigraph range h).restrict = fun v : Vector ℝ (p.stored + 1) ↦
      p.restrict (dropLast v) := funext p.restrict_addEpigraph
  simp only [SearchResult.dropLast, resultOf, Progress.relativeGap_map, hrestrict]
  cases hincumbent : s.incumbent with
  | none =>
      simp only [Progress.map, hincumbent]
      rfl
  | some x =>
      simp only [Progress.map, hincumbent]
      rfl

/-- The two searches are refused together, and return results that agree. -/
theorem dropLast_solve (hp : p.epigraph = none) (hstandard : setup.IsStandard convex localSolver)
    (solver : σ) :
    (solve ⟨setup.addEpigraph convex localSolver range h, .initialized, none⟩ solver).map
        (·.1.dropLast) =
      (solve ⟨setup, .initialized, none⟩ solver).map (·.1) := by
  have hrun := Search.dropLast_run (h := h) hp hstandard solver
  simp only [solve, ← hrun]
  cases Search.run (setup.addEpigraph convex localSolver range h) solver with
  | error cause => rfl
  | ok found => exact congrArg Except.ok (dropLast_resultOf found.1 found.2.progress)

/-- The searches for a problem and for the problem with an epigraph variable are in step. -/
theorem solve_withEpigraph (hp : p.epigraph = none) (hsize : 0 < p.size)
    (hstandard : setup.IsStandard convex localSolver) (hlocal : localSolver.AnswersVectors)
    (solver : σ) :
    ∃ h, p.withEpigraph = .ok (p.addEpigraph p.objectiveRange h) ∧
      let setup' := setup.addEpigraph convex localSolver p.objectiveRange h
      (∀ s', Search.AtLoopHead setup' solver s' →
        Search.AtLoopHead setup solver s'.dropLast ∧
        (Search.turn setup' s').map (Prod.map id Search.dropLast) = Search.turn setup s'.dropLast ∧
        ∀ node s₁, Search.Takes setup' s' node s₁ →
          Search.Takes setup s'.dropLast node.dropLast s₁.dropLast) ∧
      (∀ s, Search.AtLoopHead setup solver s →
        ∃ s', Search.AtLoopHead setup' solver s' ∧ s'.dropLast = s) ∧
      (∀ s', Search.AtLoopHead (setup'.recording convex localSolver) (solver, []) s' →
        ∃ s, Search.AtLoopHead (setup.recording convex localSolver) (solver, []) s ∧
          s.progress.iterations = s'.progress.iterations ∧ s.solver = s'.solver) ∧
      ∃ t t' result result' last last', make setup = .ok t ∧ make setup' = .ok t' ∧
        t.solve solver = .ok (result, last) ∧ t'.solve solver = .ok (result', last') ∧
        result'.dropLast = result := by
  obtain ⟨h, hadded⟩ := Problem.withEpigraph_eq_ok hp
  refine ⟨h, hadded, fun s' hs' ↦ ?_, fun s hs ↦ hs.exists_dropLast hp hstandard, ?_, ?_⟩
  · refine ⟨hs'.dropLast hp hstandard, hs'.dropLast_turn hp hstandard, ?_⟩
    exact fun node s₁ htakes ↦ htakes.dropLast
  · intro s' hs'
    have hrecording : (setup.recording convex localSolver).IsStandard convex.recording
        localSolver.recording := rfl
    exact ⟨s'.dropLast, hs'.dropLast hp hrecording, rfl, rfl⟩
  · have hplaced : p.EpigraphIsPlaced := Problem.EpigraphIsAdded.isPlaced (Or.inl hp)
    have hreturns := hstandard.run_succeeds hplaced (fun _ ↦ hsize) hlocal.answersFit solver
    obtain ⟨⟨result, last⟩, hsolve⟩ :=
      solve_succeeds (t := ⟨setup, .initialized, none⟩) rfl hreturns
    have hsame := dropLast_solve (h := h) hp hstandard solver
    rw [hsolve] at hsame
    obtain ⟨⟨result', last'⟩, hsolve', heq⟩ := map_eq_ok_iff.mp hsame
    exact ⟨_, _, result, result', last, last', make_eq_ok _, make_eq_ok _, hsolve, hsolve', heq⟩

/-- With an epigraph variable the search on the line converges as it does without. -/
theorem line_withEpigraph : ∃ h, (Line.problem []).withEpigraph =
      .ok ((Line.problem []).addEpigraph (Line.problem []).objectiveRange h) ∧
    ∃ t result last,
      make ((Line.setup [] 1).addEpigraph Tangent.rangeSolver Line.noAnswer _ h) = .ok t ∧
      t.solve () = .ok (result, last) ∧ result.state = .converged := by
  have hstandard : (Line.setup [] 1).IsStandard Tangent.rangeSolver Line.noAnswer :=
    Line.setup_isStandard
  obtain ⟨h, hadded, -, -, -, t, t', result, result', last, last', hmake, hmake', hsolve, hsolve',
    hsame⟩ := solve_withEpigraph rfl Nat.one_pos hstandard nofun ()
  obtain ⟨converged, _, _, hline, hstate, -⟩ := Line.solve_converged
  refine ⟨h, hadded, t', result', last', hmake', hsolve', ?_⟩
  cases hmake.symm.trans (make_eq_ok _)
  cases hsolve.symm.trans hline
  rw [← hstate, ← hsame]
  rfl

end SearchTree

end GlobalQcqp
