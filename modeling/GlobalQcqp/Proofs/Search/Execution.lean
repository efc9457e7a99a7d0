import GlobalQcqp.Proofs.Search.Parts
/-!
# Carrying a search out

What the parts answer decides how a node is dealt with and where a turn leads.  A search can thus be
followed from ledger to ledger without its trace.

The search on a line minimizes the only variable over the unit interval.
-/

namespace GlobalQcqp

namespace Search

variable {α β σ : Type} [Scalar α] [Scalar β] [Extended α β] {p : Problem α}
  {setup : Setup α β σ p} {node : Node α β p.stored} {s s' : Search α β σ p}

theorem exists_boundAbove {c : Candidate α p.size} {stored : Vector α p.stored}
    (hfound : (setup.parts.upper node s.solver).result = .ok c)
    (hstored : storedPoint p node c = .ok stored)
    (hlt : (ofNumber c.value : β) < s.progress.incumbentValue) :
    ∃ s', boundAbove setup node s = .ok s' ∧
      s'.ledger = s.ledger.countUpper.improve setup (ofNumber c.value) stored := by
  simp only [boundAbove, hfound, hstored, ok_bind]
  refine ⟨_, rfl, ?_⟩
  rw [ledger_improve, ledger_log, ledger_logAll]
  exact if_pos hlt

/-- A node that its relaxation does not discard is looked at again after a search for a feasible
point. -/
theorem processBounded_of_due (hbound : ¬ setup.pruneThreshold s.progress ≤ node.bound)
    (hdue : setup.isUpperDue node s.progress = true) (habove : boundAbove setup node s = .ok s') :
    processBounded setup node s =
      if setup.pruneThreshold s'.progress ≤ node.bound then .ok (s'.countPruned 1)
      else branch setup node s' := by
  rw [processBounded, if_neg fun h ↦ hbound (isPrunable_iff.mp h), if_pos hdue, habove, ok_bind]
  simp only [isPrunable, decide_eq_true_iff]
  rfl

theorem exists_processOpen {c : ConvexProblem α p.size} {r : Lowered α β p.stored σ}
    (hc : p.relaxation? setup.routine (p.restrictBox node.box) = .ok c)
    (hlower : setup.parts.lower node c s.solver = .ok r) :
    ∃ s', s'.solver = r.solver ∧ s'.ledger = s.ledger.countLower r.node.status ∧
      processOpen setup node s =
        if r.node.status = .infeasible then .ok s'.countInfeasible
        else processBounded setup r.node s' := by
  have hsolver := solver_logAll { s with solver := r.solver } r.notices
  have hledger := ledger_logAll { s with solver := r.solver } r.notices
  simp only [processOpen, hc, hlower, ok_bind]
  generalize logAll { s with solver := r.solver } r.notices = s₁ at hsolver hledger
  replace hledger : s₁.ledger = s.ledger := hledger
  have hcount (status : LowerStatus) :
      s₁.ledger.countLower status = s.ledger.countLower status := by
    rw [hledger]
  cases r.node.status with
  | failed =>
      refine ⟨_, ?_, ?_, rfl⟩
      · exact hsolver
      · exact hcount .failed
  | infeasible =>
      refine ⟨_, ?_, ?_, rfl⟩
      · exact hsolver
      · exact hcount .infeasible
  | feasible =>
      refine ⟨_, ?_, ?_, rfl⟩
      · exact hsolver
      · exact hcount .feasible
  | unsolved =>
      refine ⟨_, ?_, ?_, rfl⟩
      · exact hsolver
      · exact hcount .unsolved

theorem exists_process {r : Propagated α β p.stored σ}
    (hfresh : ¬ setup.pruneThreshold s.progress ≤ node.priority)
    (hr : setup.parts.propagate node s.progress s.solver = .ok r) (hopen : r.isOpen = true) :
    ∃ s', s'.solver = r.solver ∧ s'.ledger = s.ledger ∧
      process setup node s = processOpen setup r.node s' := by
  refine ⟨(logAll { s with solver := r.solver } r.notices).log (.propagated r.node r.isOpen),
    solver_logAll _ _, ledger_logAll _ _, ?_⟩
  rw [process, if_neg fun h ↦ hfresh (isPrunable_iff.mp h), hr, ok_bind]
  exact if_pos hopen

/-- The search goes on to the next loop head once the node taken is processed. -/
theorem exists_turn {pool : Pool α β p.stored} {polled : Search α β σ p}
    (hverdict : verdict? setup (tick setup s) = (none, polled))
    (hpop : polled.pool.pop? = some (node, pool))
    (hprocess : process setup node { polled with
        pool := pool
        progress := { polled.progress with
          iterations := polled.progress.iterations + 1 } } = .ok s') :
    ∃ s'', turn setup s = .ok (none, s'') ∧ s''.ledger = s'.ledger.updateLowerBound := by
  rw [turn, hverdict]
  simp only [advance, hpop, hprocess, ok_bind]
  split
  · exact ⟨_, rfl, ledger_updateLowerBound s'⟩
  · exact ⟨_, rfl, ledger_updateLowerBound s'⟩

theorem verdict?_of_pool_eq_nil (setup : Setup α β σ p) (hpool : s.pool.nodes = []) :
    verdict? setup s = (some (exhausted setup s), s) :=
  if_pos (Pool.isEmpty_iff.mpr hpool)

end Search

namespace SearchTree

variable {α β σ : Type} [Scalar α] [Scalar β] [Extended α β] {p : Problem α}
  {t : SearchTree α β σ p} {solver : σ} {s s' : Search α β σ p} {state : RunState}

/-- A search that stops at its second loop head has the result read off there. -/
theorem solve_of_turn (hinitialized : t.state = .initialized)
    (hturn : Search.turn t.setup (Search.start t.setup solver) = .ok (none, s))
    (hverdict : Search.verdict? t.setup (Search.tick t.setup s) = (some state, s')) :
    t.solve solver = .ok (resultOf p state (Search.finish t.setup state s').progress,
      ⟨t.setup, state, some (Search.finish t.setup state s')⟩) := by
  have hlast : Search.turn t.setup s = .ok (some state, s') := by
    rw [Search.turn, hverdict]
  have hrun : Search.run t.setup solver = .ok (state, Search.finish t.setup state s') := by
    rw [Search.run, Search.turnLimit, Search.turns, hturn, ok_bind]
    simp only [Search.turns, hlast, ok_bind]
    rfl
  rw [solve, hinitialized, hrun]
  rfl

theorem solve_of_pool_eq_nil (hinitialized : t.state = .initialized)
    (hturn : Search.turn t.setup (Search.start t.setup solver) = .ok (none, s))
    (hpool : s.pool.nodes = [])
    (hstate : Search.exhausted t.setup (Search.tick t.setup s) = state) :
    t.solve solver = .ok
      (resultOf p state (Search.finish t.setup state (Search.tick t.setup s)).progress,
        ⟨t.setup, state, some (Search.finish t.setup state (Search.tick t.setup s))⟩) := by
  have hempty : (Search.tick t.setup s).pool.nodes = [] := hpool
  refine solve_of_turn hinitialized hturn ?_
  rw [Search.verdict?_of_pool_eq_nil t.setup hempty, hstate]

end SearchTree

/-! ## A search on a line -/

namespace Line

abbrev unit : Box ℝ 1 :=
  ⟨#v[0], #v[1]⟩

/-- Minimizes the only variable over the unit interval. -/
noncomputable abbrev problem (constraints : List (Quadratic ℝ 1)) : Problem ℝ where
  stored := 1
  size := 1
  objective := .coordinate 0 1
  constraints := constraints
  equalities := []
  box := unit
  places := #v[0]
  branchable := #v[true]
  absTol := 0
  relTol := 0
  epigraph := none
  not_crossed i := by simp [Fin.fin_one_eq_zero i]
  places_injective i j _ := Subsingleton.elim i j
  absTol_nonneg := lt_irrefl 0
  relTol_nonneg := lt_irrefl 0

noncomputable def beyond : Quadratic ℝ 1 :=
  (Quadratic.coordinate 0 1).subConst (-1)

noncomputable def options (absGap : EReal) : Options ℝ EReal where
  absGap := some absGap
  relGap := some 0
  maxNodes := 4
  maxIterations := some 1
  maxTime := ⊤
  minWidth := 0
  feasibilityTol := 0
  selection := .bestFirst
  hybridInterval := 1
  branching := .largestWidth
  branchPoint := .midpoint
  propagation := .none
  probeDepth := 0
  upperInterval := 1
  lowerRetries := 0
  reportInterval := 0

def routine : EigenRoutine ℝ :=
  fun _ _ ↦ some 0

def noAnswer : LocalSolver ℝ 1 Unit :=
  fun _ s ↦ (⟨none, ""⟩, s)

noncomputable def setup (constraints : List (Quadratic ℝ 1)) (absGap : EReal) :
    Setup ℝ EReal Unit (problem constraints) where
  options := options absGap
  routine := routine
  parts := Components.standard (problem constraints) (options absGap) routine Tangent.rangeSolver
    noAnswer
  clock _ := 0
  isCancelled _ := false

noncomputable def tree (constraints : List (Quadratic ℝ 1)) (absGap : EReal) :
    SearchTree ℝ EReal Unit (problem constraints) :=
  ⟨setup constraints absGap, .initialized, none⟩

variable {constraints : List (Quadratic ℝ 1)} {absGap : EReal}

theorem setup_isStandard : (setup constraints absGap).IsStandard Tangent.rangeSolver noAnswer :=
  rfl

theorem problem_epigraphIsAdded : (problem constraints).EpigraphIsAdded :=
  Or.inl rfl

theorem setup_hasFiniteGaps (hnonneg : 0 ≤ absGap) (htop : absGap ≠ ⊤) :
    (setup constraints absGap).HasFiniteGaps where
  abs_nonneg := hnonneg
  abs_ne_top := htop
  rel_nonneg := le_refl 0
  rel_ne_top := EReal.zero_ne_top

theorem setup_relGap_le_one : (setup constraints absGap).relGap ≤ 1 :=
  zero_le_one

/-! ### The data of the root -/

theorem vector_one_eq {ε : Type} (v : Vector ε 1) : v = #v[v[0]] := by
  ext i hi
  obtain rfl : i = 0 := by omega
  rfl

theorem mem_unit {x : Vector ℝ 1} : x ∈ unit ↔ (0 : ℝ) ≤ x[0] ∧ x[0] ≤ 1 := by
  rw [Box.mem_iff, Fin.forall_fin_one]
  rfl

theorem restrict_eq (x : Vector ℝ 1) : (problem constraints).restrict x = x :=
  (vector_one_eq _).trans (vector_one_eq x).symm

theorem scatter_eq (base x : Vector ℝ 1) : (problem constraints).scatter base x = x :=
  (vector_one_eq _).trans (vector_one_eq x).symm

theorem restrictBox_eq (box : Box ℝ 1) : (problem constraints).restrictBox box = box := by
  rw [Problem.restrictBox, restrict_eq, restrict_eq]

theorem midpoint_unit : unit.midpoint = #v[0.5] := by
  refine (vector_one_eq _).trans ?_
  simp [Box.midpoint]

theorem clamp_half : unit.clamp #v[0.5] = #v[0.5] := by
  refine (vector_one_eq _).trans ?_
  simp [Box.clamp]
  norm_num

theorem interval_objective :
    (Quadratic.coordinate 0 1 : Quadratic ℝ 1).interval unit.sides = ⟨0, 1⟩ := by
  simp [Quadratic.interval, Quadratic.rowRanges, List.finRange_succ, Quadratic.coordinate,
    Quadratic.ofMatrix, Quadratic.meanEntry, zeroMatrix, axis, Interval.sum, Interval.singleton,
    Interval.add, Interval.scale, Box.sides, Box.side]

theorem interval_beyond : beyond.interval unit.sides = ⟨1, 2⟩ := by
  norm_num [beyond, Quadratic.interval, Quadratic.rowRanges, List.finRange_succ,
    Quadratic.coordinate, Quadratic.ofMatrix, Quadratic.meanEntry, zeroMatrix, axis, Interval.sum,
    Interval.singleton, Interval.add, Interval.scale, Box.sides, Box.side, Quadratic.subConst,
    Quadratic.subCoefficients, Coefficients.quadratic]

theorem convexUnder_eq {n : Nat} (q : Quadratic ℝ n) (box : Box ℝ n) :
    q.convexUnder routine box = q := by
  refine Quadratic.convexUnder_of_convexShift_eq_zero ?_ box
  unfold Quadratic.convexShift Quadratic.spectralBound leastEigenvalue
  cases discBound? q.hessian <;> simp [routine, SpectralBound.shift]

theorem relaxation_eq (box : Box ℝ 1) : (problem constraints).relaxation routine box =
    ⟨.coordinate 0 1, constraints, box⟩ := by
  have hsame : (fun q : Quadratic ℝ 1 ↦ q.convexUnder routine box) = id :=
    funext fun q ↦ convexUnder_eq q box
  rw [Problem.relaxation, hsame, convexUnder_eq, List.map_id, Problem.inequalities,
    List.flatMap_nil, List.append_nil]

theorem relaxation?_root : (problem constraints).relaxation? routine
    ((problem constraints).restrictBox (Search.root (problem constraints) : Node ℝ EReal 1).box) =
      .ok ⟨.coordinate 0 1, constraints, unit⟩ := by
  rw [Problem.relaxation?_eq_ok, restrictBox_eq]
  exact congrArg Except.ok (relaxation_eq unit)

theorem solver_eq :
    (Tangent.rangeSolver : ConvexSolver ℝ EReal 1 Unit) ⟨.coordinate 0 1, [], unit⟩ none () =
      (⟨.optimal, .feasiblePoint, (0 : ℝ), some (#v[0.5] : Vector ℝ 1).toArray⟩, ()) := by
  rw [Tangent.rangeSolver, Tangent.answer, interval_objective, if_neg (by simp), Option.getD_none,
    ConvexProblem.midpoint, midpoint_unit]
  rfl

theorem solver_eq_infeasible :
    (Tangent.rangeSolver : ConvexSolver ℝ EReal 1 Unit) ⟨.coordinate 0 1, [beyond], unit⟩ none () =
      (⟨.infeasible, .infeasibilityCertificate, ⊤, none⟩, ()) := by
  rw [Tangent.rangeSolver, Tangent.answer, if_pos]
  · rfl
  · rw [List.any_cons, interval_beyond]
    norm_num [Tangent.tolerance]

/-- The root once its relaxation is solved. -/
noncomputable abbrev bounded : Node ℝ EReal 1 :=
  { (Search.root (problem []) : Node ℝ EReal 1) with
    relaxed := some (#v[0.5] : Vector ℝ 1).toArray
    lowerBound := (0 : ℝ)
    status := .feasible }

theorem bound_bounded : (bounded.bound : EReal) = 0 := by
  rw [Node.bound_eq_max]
  exact max_eq_right bot_le

theorem lower_root : (setup [] absGap).parts.lower (Search.root (problem []))
    ⟨.coordinate 0 1, [], unit⟩ () = .ok ⟨bounded, [], ()⟩ := by
  have hrecord : Lower.record (problem []) (Search.root (problem []) : Node ℝ EReal 1)
      ⟨.optimal, .feasiblePoint, (0 : ℝ), some (#v[0.5] : Vector ℝ 1).toArray⟩ =
        (bounded, []) := by
    have hwrite := Lower.writeBack_toArray (problem [])
      (Search.root (problem []) : Node ℝ EReal 1) #v[0.5]
    have hbox : (Search.root (problem []) : Node ℝ EReal 1).box = unit := rfl
    rw [scatter_eq, hbox, clamp_half] at hwrite
    have hstatus : (⟨.optimal, .feasiblePoint, (0 : ℝ), some (#v[0.5] : Vector ℝ 1).toArray⟩ :
        ConvexAnswer ℝ EReal).status = .feasible := rfl
    simp only [Lower.record, hstatus, hwrite, Scalar.isFinite_coe, Scalar.max_ereal]
    simp [Search.root, Node.fresh]
  have hsolve : (setup [] absGap).parts.lower (Search.root (problem []))
      ⟨.coordinate 0 1, [], unit⟩ () =
        let r := Lower.record (problem []) (Search.root (problem []))
          (Tangent.rangeSolver ⟨.coordinate 0 1, [], unit⟩ none ()).1
        .ok ⟨r.1, [] ++ r.2, ()⟩ := rfl
  rw [hsolve, solver_eq, hrecord]
  rfl

/-- No point of the unit interval is at most minus one, which the solver finds out. -/
theorem lower_root_beyond : (setup [beyond] absGap).parts.lower (Search.root (problem [beyond]))
    ⟨.coordinate 0 1, [beyond], unit⟩ () =
      .ok ⟨(Search.root (problem [beyond])).markInfeasible, [], ()⟩ := by
  have hsolve : (setup [beyond] absGap).parts.lower (Search.root (problem [beyond]))
      ⟨.coordinate 0 1, [beyond], unit⟩ () =
        let r := Lower.record (problem [beyond]) (Search.root (problem [beyond]))
          (Tangent.rangeSolver ⟨.coordinate 0 1, [beyond], unit⟩ none ()).1
        .ok ⟨r.1, [] ++ r.2, ()⟩ := rfl
  rw [hsolve, solver_eq_infeasible]
  rfl

theorem upper_root : (setup [] absGap).parts.upper bounded () =
    ⟨.ok ⟨#v[0.5], 0.5, .relaxation⟩, [.localFailed 0 ""], ()⟩ := by
  have hfeasible : (problem []).isFeasibleIn unit 0 #v[0.5] = true := by
    simp [Problem.isFeasibleIn, Box.isMissedBy, Problem.violation, List.finRange_succ]
    norm_num
  have hvalue : (Quadratic.coordinate 0 1 : Quadratic ℝ 1).eval #v[0.5] = 0.5 := by
    rw [Quadratic.eval_coordinate]
    simp
  have hsearch : (setup [] absGap).parts.upper bounded () =
      ⟨(Candidate.best (problem []) unit 0 [(unit.clamp #v[0.5], .relaxation)]).elim
        (.error .noFeasiblePoint) .ok, [.localFailed 0 ""], ()⟩ := by
    have hrestrict := (problem []).restrict?_toArray (#v[0.5] : Vector ℝ 1)
    rw [restrict_eq] at hrestrict
    simp only [setup, Components.standard, Components.boundAbove, bounded, hrestrict]
    rfl
  rw [hsearch, clamp_half, Candidate.best, List.foldl_cons, Candidate.best.consider,
    if_pos hfeasible, hvalue]
  rfl

/-! ### The first turn -/

noncomputable def taken (constraints : List (Quadratic ℝ 1)) (absGap : EReal) :
    Ledger EReal (problem constraints) :=
  (Ledger.start (setup constraints absGap)).take 0 ⟨.bestFirst, 1, [], 1⟩

noncomputable def found (absGap : EReal) : Ledger EReal (problem []) :=
  ((taken [] absGap).countLower .feasible).countUpper.improve (setup [] absGap) (0.5 : ℝ)
    #v[0.5]

theorem pruneThreshold_found : (setup [] absGap).pruneThreshold (found absGap).progress =
    ((0.5 : ℝ) : EReal) - max absGap 0 := by
  have hgap : (setup [] absGap).gapAt 0.5 = max absGap 0 := by
    simp [Setup.gapAt, setup, options, Setup.absGap, Setup.relGap]
  rw [Setup.pruneThreshold_eq rfl rfl, hgap]

/-- With a gap of one the incumbent found in the root rules it out. -/
theorem pruneThreshold_found_le : (setup [] 1).pruneThreshold (found 1).progress ≤ 0 := by
  rw [pruneThreshold_found, max_eq_left zero_le_one, ← EReal.coe_one, ← EReal.coe_sub]
  exact EReal.coe_nonpos.mpr (by norm_num)

/-- Nothing is discarded by its bound before there is an incumbent. -/
theorem not_pruneThreshold_le {progress : Progress EReal (Vector ℝ 1)}
    (hnone : progress.hasIncumbent = false) {bound : EReal} (h : bound < ⊤) :
    ¬ (setup constraints absGap).pruneThreshold progress ≤ bound := by
  rw [Setup.pruneThreshold_eq_top hnone]
  exact not_le.mpr h

theorem exists_process_root {bounded : Node ℝ EReal 1}
    {s : Search ℝ EReal Unit (problem constraints)}
    (hs : s.ledger = taken constraints absGap)
    (hlower : (setup constraints absGap).parts.lower (Search.root (problem constraints))
      ⟨.coordinate 0 1, constraints, unit⟩ () = .ok ⟨bounded, [], ()⟩) :
    ∃ s', s'.ledger = (taken constraints absGap).countLower bounded.status ∧
      Search.process (setup constraints absGap) (Search.root (problem constraints)) s =
        if bounded.status = .infeasible then .ok s'.countInfeasible
        else Search.processBounded (setup constraints absGap) bounded s' := by
  have hfresh : ¬ (setup constraints absGap).pruneThreshold s.progress ≤
      (Search.root (problem constraints) : Node ℝ EReal 1).priority := by
    refine not_pruneThreshold_le ?_ bot_lt_top
    rw [← Search.ledger_progress, hs]
    rfl
  have hpropagate : (setup constraints absGap).parts.propagate (Search.root (problem constraints))
      s.progress s.solver = .ok ⟨Search.root (problem constraints), true, [], ()⟩ := rfl
  obtain ⟨s₁, -, hs₁, hprocess⟩ := Search.exists_process hfresh hpropagate rfl
  have hrelaxation : (problem constraints).relaxation? (setup constraints absGap).routine _ = _ :=
    relaxation?_root
  obtain ⟨s₂, -, hs₂, hopen⟩ := Search.exists_processOpen (s := s₁) hrelaxation hlower
  refine ⟨s₂, ?_, hprocess.trans hopen⟩
  rw [hs₂, hs₁, hs]

theorem not_isPrunable_bounded {s : Search ℝ EReal Unit (problem [])}
    (hs : s.ledger = (taken [] absGap).countLower .feasible) :
    ¬ (setup [] absGap).pruneThreshold s.progress ≤ bounded.bound := by
  have hnone : s.progress.hasIncumbent = false := by
    rw [← Search.ledger_progress, hs]
    rfl
  rw [bound_bounded]
  exact not_pruneThreshold_le hnone EReal.zero_lt_top

theorem exists_boundAbove_root {s : Search ℝ EReal Unit (problem [])}
    (hs : s.ledger = (taken [] absGap).countLower .feasible) :
    ∃ s', Search.boundAbove (setup [] absGap) bounded s = .ok s' ∧ s'.ledger = found absGap := by
  have hvalue : s.progress.incumbentValue = ⊤ := by
    rw [← Search.ledger_progress, hs]
    rfl
  have hfound : ((setup [] absGap).parts.upper bounded s.solver).result =
      .ok ⟨#v[0.5], 0.5, .relaxation⟩ := congrArg (·.result) upper_root
  have hstored : Search.storedPoint (problem []) bounded ⟨#v[0.5], 0.5, .relaxation⟩ =
      .ok #v[0.5] := congrArg Except.ok (scatter_eq _ _)
  have hlt : ((0.5 : ℝ) : EReal) < s.progress.incumbentValue := by
    rw [hvalue]
    exact EReal.coe_lt_top _
  obtain ⟨s', habove, hs'⟩ := Search.exists_boundAbove hfound hstored hlt
  refine ⟨s', habove, ?_⟩
  rw [hs', hs]
  rfl

theorem exists_processBounded_root {s : Search ℝ EReal Unit (problem [])}
    (hs : s.ledger = (taken [] absGap).countLower .feasible) :
    ∃ s', s'.ledger = found absGap ∧ Search.processBounded (setup [] absGap) bounded s =
      if (setup [] absGap).pruneThreshold s'.progress ≤ 0 then .ok (s'.countPruned 1)
      else Search.branch (setup [] absGap) bounded s' := by
  have hdue : (setup [] absGap).isUpperDue bounded s.progress = true := rfl
  obtain ⟨s', habove, hs'⟩ := exists_boundAbove_root hs
  have hprocess := Search.processBounded_of_due (not_isPrunable_bounded hs) hdue habove
  rw [bound_bounded] at hprocess
  exact ⟨s', hs', hprocess⟩

noncomputable def polled (constraints : List (Quadratic ℝ 1)) (absGap : EReal) :
    Search ℝ EReal Unit (problem constraints) :=
  { Search.tick (setup constraints absGap) (Search.start (setup constraints absGap) ()) with
    polls := 1 }

theorem verdict?_start : Search.verdict? (setup constraints absGap)
    (Search.tick (setup constraints absGap) (Search.start (setup constraints absGap) ())) =
      (none, polled constraints absGap) := by
  have hlimit : Search.limit? (setup constraints absGap) (polled constraints absGap) = none := by
    simp [Search.limit?, polled, Search.tick, setup, options, Search.start, Progress.start]
  exact congrArg (·, polled constraints absGap) hlimit

theorem pop?_polled : (polled constraints absGap).pool.pop? =
    some (Search.root (problem constraints), (taken constraints absGap).pool) :=
  rfl

/-- The first turn takes the root, and ends where processing it ends. -/
theorem exists_turn_root {l : Ledger EReal (problem constraints)}
    (hroot : ∀ s : Search ℝ EReal Unit (problem constraints), s.ledger = taken constraints absGap →
      ∃ s', Search.process (setup constraints absGap) (Search.root (problem constraints)) s =
        .ok s' ∧ s'.ledger = l) :
    ∃ s, Search.turn (setup constraints absGap) (Search.start (setup constraints absGap) ()) =
      .ok (none, s) ∧ s.ledger = l.updateLowerBound := by
  obtain ⟨s', hprocess, hs'⟩ := hroot { polled constraints absGap with
    pool := (taken constraints absGap).pool
    progress := (taken constraints absGap).progress } rfl
  obtain ⟨s, hturn, hs⟩ := Search.exists_turn verdict?_start pop?_polled hprocess
  refine ⟨s, hturn, ?_⟩
  rw [hs, hs']

/-! ### Results -/

/-- With a gap of one the root is discarded once the middle of the interval is the incumbent, whose
value becomes the lower bound. -/
theorem solve_converged : ∃ result t' s, (tree [] 1).solve () = .ok (result, t') ∧
    result.state = .converged ∧ result.lowerBound = (0.5 : ℝ) ∧ t'.search = some s ∧
    s.pool.nodes = [] := by
  have hroot (s : Search ℝ EReal Unit (problem [])) (hs : s.ledger = taken [] 1) :
      ∃ s', Search.process (setup [] 1) (Search.root (problem [])) s = .ok s' ∧
        s'.ledger = (found 1).countPruned 1 := by
    obtain ⟨s₁, hs₁, hopen⟩ := exists_process_root hs lower_root
    obtain ⟨s₂, hs₂, hbounded⟩ := exists_processBounded_root hs₁
    have hthreshold : (setup [] 1).pruneThreshold s₂.progress ≤ 0 := by
      rw [← Search.ledger_progress, hs₂]
      exact pruneThreshold_found_le
    rw [if_pos hthreshold] at hbounded
    refine ⟨s₂.countPruned 1, hopen.trans hbounded, ?_⟩
    rw [← hs₂]
    rfl
  obtain ⟨s, hturn, hs⟩ := exists_turn_root hroot
  have hpool : s.pool.nodes = [] := congrArg (·.pool.nodes) hs
  have hprogress : s.progress = ((found 1).countPruned 1).updateLowerBound.progress :=
    congrArg Ledger.progress hs
  have hlower : s.progress.lowerBound = (0.5 : ℝ) := by
    have hraised := Ledger.raisedBound_of_hasIncumbent (l := (found 1).countPruned 1) rfl
    have hnone : ((found 1).countPruned 1).outstanding = ⊤ := by
      rw [Ledger.outstanding, Pool.minBound_eq_top rfl]
      exact min_self _
    rw [hnone, min_eq_right le_top] at hraised
    rw [hprogress]
    exact hraised.trans (max_eq_right bot_le)
  have hstate : Search.exhausted (setup [] 1) (Search.tick (setup [] 1) s) = .converged := by
    rw [Search.exhausted, Search.tick, hprogress]
    rfl
  exact ⟨_, _, _, SearchTree.solve_of_pool_eq_nil rfl hturn hpool hstate, rfl, hlower, rfl, hpool⟩

theorem solve_infeasible : ∃ result t', (tree [beyond] 0).solve () = .ok (result, t') ∧
    result.state = .infeasible := by
  have hroot (s : Search ℝ EReal Unit (problem [beyond])) (hs : s.ledger = taken [beyond] 0) :
      ∃ s', Search.process (setup [beyond] 0) (Search.root (problem [beyond])) s = .ok s' ∧
        s'.ledger = ((taken [beyond] 0).countLower .infeasible).countInfeasible := by
    obtain ⟨s₁, hs₁, hopen⟩ := exists_process_root hs lower_root_beyond
    refine ⟨s₁.countInfeasible, hopen, ?_⟩
    rw [← show s₁.ledger = (taken [beyond] 0).countLower .infeasible from hs₁]
    rfl
  obtain ⟨s, hturn, hs⟩ := exists_turn_root hroot
  have hpool : s.pool.nodes = [] := congrArg (·.pool.nodes) hs
  have hprogress : s.progress =
      ((taken [beyond] 0).countLower .infeasible).countInfeasible.updateLowerBound.progress :=
    congrArg Ledger.progress hs
  have hstate : Search.exhausted (setup [beyond] 0) (Search.tick (setup [beyond] 0) s) =
      .infeasible := by
    rw [Search.exhausted, Search.tick, hprogress]
    rfl
  exact ⟨_, _, SearchTree.solve_of_pool_eq_nil rfl hturn hpool hstate, rfl⟩

theorem exists_split_bounded : ∃ left right : Node ℝ EReal 1,
    bounded.split? (0 : Fin 1) 0.5 1 = .ok (left, right) ∧
      left.priority = 0 ∧ right.priority = 0 := by
  have hproper {a b : ℝ} (hab : a ≤ b) : (⟨#v[a], #v[b]⟩ : Box ℝ 1).IsProper := by
    intro i
    rw [Fin.fin_one_eq_zero i]
    exact hab
  refine ⟨_, _, Node.split?_eq_ok_iff.mpr ⟨rfl, ?_, ?_⟩, bound_bounded, bound_bounded⟩
  · exact hproper (by norm_num : (0 : ℝ) ≤ 0.5)
  · exact hproper (by norm_num : (0.5 : ℝ) ≤ 1)

theorem exists_process_split {left right : Node ℝ EReal 1}
    (hsplit : bounded.split? (0 : Fin 1) 0.5 1 = .ok (left, right))
    {s : Search ℝ EReal Unit (problem [])} (hs : s.ledger = taken [] 0) :
    ∃ s', Search.process (setup [] 0) (Search.root (problem [])) s = .ok s' ∧
      s'.ledger = (found 0).pushHalves left right := by
  have hselect : Branching.select (setup [] 0).options.branching (problem []).branchable
      (problem []).box.widths (setup [] 0).options.minWidth bounded = .ok (some 0) := by
    simp [Branching.select, Branching.eligible, List.finRange_succ, Box.widths, Branching.widest?,
      firstLargest?, setup, options, Search.root, Node.fresh]
  have hpoint : Branching.point (setup [] 0).options.branchPoint bounded 0 = .ok 0.5 := by
    simp [Branching.point, setup, options, Search.root, Node.fresh, Box.side]
  obtain ⟨s₁, hs₁, hopen⟩ := exists_process_root hs lower_root
  obtain ⟨s₂, hs₂, hbounded⟩ := exists_processBounded_root hs₁
  have hthreshold : ¬ (setup [] 0).pruneThreshold s₂.progress ≤ 0 := by
    rw [← Search.ledger_progress, hs₂, pruneThreshold_found, max_self, sub_zero, not_le]
    exact EReal.coe_pos.mpr (by norm_num)
  rw [if_neg hthreshold] at hbounded
  have hcreated : s₂.progress.nodesCreated = 1 := congrArg (·.progress.nodesCreated) hs₂
  have hsplit : bounded.split? (0 : Fin 1) 0.5 ((1 : ℕ) : ℤ) = .ok (left, right) := hsplit
  have hbranch : Search.branch (setup [] 0) bounded s₂ = .ok { s₂ with
      progress := { s₂.progress with nodesCreated := s₂.progress.nodesCreated + 2 }
      pool := (s₂.pool.push left).push right } := by
    simp only [Search.branch, hselect, hpoint, hcreated]
    rw [hsplit]
  refine ⟨_, hopen.trans (hbounded.trans hbranch), ?_⟩
  rw [← hs₂]
  rfl

theorem raisedBound_split {left right : Node ℝ EReal 1} (hleft : left.priority = 0)
    (hright : right.priority = 0) : ((found 0).pushHalves left right).raisedBound = 0 := by
  have hleast : ((found 0).pushHalves left right).outstanding = 0 := by
    have hbound : ((found 0).pushHalves left right).pool.minBound = 0 := by
      calc _ = Scalar.min right.priority left.priority := rfl
        _ = 0 := by rw [hleft, hright, Scalar.min_ereal, min_self]
    rw [Ledger.outstanding, hbound]
    exact min_eq_left le_top
  have hraised := Ledger.raisedBound_of_hasIncumbent (l := (found 0).pushHalves left right) rfl
  rw [hleast] at hraised
  have hvalue : (0 : EReal) ≤ ((0.5 : ℝ) : EReal) := EReal.coe_nonneg.mpr (by norm_num)
  calc ((found 0).pushHalves left right).raisedBound =
      max ⊥ (min 0 ((0.5 : ℝ) : EReal)) := hraised
    _ = min 0 ((0.5 : ℝ) : EReal) := max_eq_right bot_le
    _ = 0 := min_eq_left hvalue

/-- Without a gap the root is split, and the search stops at the limit on iterations. -/
theorem solve_iterationLimit : ∃ s result t', Search.AtLoopHead (setup [] 0) () s ∧
    s.pool.nodes ≠ [] ∧ s.progress.lowerBound = 0 ∧ (tree [] 0).solve () = .ok (result, t') ∧
    result.state = .iterationLimit ∧ result.lowerBound = 0 := by
  obtain ⟨left, right, hsplit, hleft, hright⟩ := exists_split_bounded
  obtain ⟨s, hturn, hs⟩ := exists_turn_root fun s hs ↦ exists_process_split hsplit hs
  have hopen : s.pool.nodes ≠ [] := by
    rw [show s.pool.nodes = [right, left] from congrArg (·.pool.nodes) hs]
    exact List.cons_ne_nil _ _
  have hprogress : s.progress = ((found 0).pushHalves left right).updateLowerBound.progress :=
    congrArg Ledger.progress hs
  have hlower : s.progress.lowerBound = 0 := by
    rw [hprogress]
    exact raisedBound_split hleft hright
  have hgap : (setup [] 0).isGapClosed s.progress = false := by
    have hpos : ¬ ((0.5 : ℝ) : EReal) ≤ 0 := not_le.mpr (EReal.coe_pos.mpr (by norm_num))
    have hvalue : s.progress.incumbentValue = (0.5 : ℝ) := by
      rw [hprogress]
      rfl
    simp only [Setup.isGapClosed, Progress.absoluteGap, hvalue, hlower, sub_zero, Setup.absGap,
      Setup.relGap, setup, options, Option.getD_some, zero_mul, hpos]
    simp
  have hlimit : Search.limit? (setup [] 0) (Search.tick (setup [] 0) s) = some .iterationLimit := by
    have hcreated : s.progress.nodesCreated = 3 := by
      rw [hprogress]
      rfl
    have hiterations : s.progress.iterations = 1 := by
      rw [hprogress]
      rfl
    simp [Search.limit?, Search.tick, setup, options, hcreated, hiterations]
  have hverdict : Search.verdict? (setup [] 0) (Search.tick (setup [] 0) s) =
      (some .iterationLimit, { Search.tick (setup [] 0) s with polls := s.polls + 1 }) := by
    rw [Search.verdict?, if_neg, if_neg, hlimit]
    · rfl
    · exact Bool.eq_false_iff.mp hgap
    · exact fun h ↦ hopen (Pool.isEmpty_iff.mp h)
  exact ⟨s, _, _, .next .start hturn, hopen, hlower, SearchTree.solve_of_turn rfl hturn hverdict,
    rfl, hlower⟩

end Line

end GlobalQcqp
