import GlobalQcqp.Proofs.Epigraph.Parts
import GlobalQcqp.Proofs.Search.Stages
import GlobalQcqp.Proofs.Search.Termination
/-!
# Searches without the added variable

A search on a problem with an added epigraph variable and the search on the problem without it
proceed in step.  Without the last entry of every stored vector a state of the one is a state of the
other, and every step of a turn leads from such a state to such a state.
-/

namespace GlobalQcqp

/-! ## Pools -/

section

variable {α β : Type} {k l : Nat}

def Pool.map (f : Node α β k → Node α β l) (pool : Pool α β k) : Pool α β l where
  selection := pool.selection
  interval := pool.interval
  nodes := pool.nodes.map f
  pops := pool.pops

@[simp] theorem Pool.nodes_map (f : Node α β k → Node α β l) (pool : Pool α β k) :
    (pool.map f).nodes = pool.nodes.map f :=
  rfl

theorem pick?_map {ν ν' : Type} {prefers : ν → ν → Bool} {prefers' : ν' → ν' → Bool} {f : ν → ν'}
    (hf : ∀ a b, prefers' (f a) (f b) = prefers a b) (nodes : List ν) :
    pick? prefers' (nodes.map f) = (pick? prefers nodes).map (Prod.map f (List.map f)) := by
  induction nodes with
  | nil => rfl
  | cons x xs ih =>
      simp only [List.map_cons, pick?, ih]
      cases pick? prefers xs with
      | none => rfl
      | some found =>
          obtain ⟨y, rest⟩ := found
          simp only [Option.map_some, Prod.map_apply, hf]
          split
          · rfl
          · rfl

namespace Pool

variable [Scalar β] (pool : Pool α β (k + 1))

theorem pop?_map_dropLast :
    (pool.map Node.dropLast).pop? = pool.pop?.map (Prod.map Node.dropLast (map Node.dropLast)) := by
  have hprefers (best : Bool) (a b : Node α β (k + 1)) :
      (if best then Node.isBetter else Node.isDeeper) a.dropLast b.dropLast =
        (if best then Node.isBetter else Node.isDeeper) a b := by
    cases best with
    | true => rfl
    | false => rfl
  have hpick := pick?_map (hprefers pool.picksBest) pool.nodes
  have hpicks : (pool.map Node.dropLast).picksBest = pool.picksBest := rfl
  rw [pop?, pop?, hpicks, nodes_map, hpick, Option.map_map, Option.map_map]
  rfl

theorem minBound_map_dropLast [Scalar α] [Extended α β] :
    (pool.map Node.dropLast).minBound = pool.minBound := by
  rw [minBound, minBound, nodes_map]
  cases pool.nodes with
  | nil => rfl
  | cons node nodes =>
      simp only [List.map_cons, List.foldl_map]
      rfl

theorem prune_map_dropLast (threshold : β) : (pool.map Node.dropLast).prune threshold =
    Prod.map (map Node.dropLast) id (pool.prune threshold) := by
  have hfilter : (pool.nodes.map Node.dropLast).filter (decide <| ·.priority < threshold) =
      (pool.nodes.filter (decide <| ·.priority < threshold)).map Node.dropLast :=
    List.filter_map
  simp only [prune, nodes_map, hfilter, List.length_map]
  rfl

end Pool

/-- The entry without what it says of the last stored variable. -/
def Entry.dropLast {n : Nat} : Entry α β (k + 1) n → Entry α β k n
  | .notice n => .notice n.dropLast
  | .propagated node isOpen => .propagated node.dropLast isOpen
  | .lowered node => .lowered node.dropLast
  | .found node c => .found node c
  | .missed node => .missed node
  | .record r => .record r

end

theorem Progress.offer_map {β π π' : Type} [Scalar β] (f : π → π') (s : Progress β π) (value : β)
    (point : Option π) :
    (s.map f).offer value (point.map f) = Prod.map (Progress.map f) id (s.offer value point) := by
  unfold offer
  rw [show (s.map f).incumbentValue = s.incumbentValue from rfl]
  split
  · cases point with
    | none => rfl
    | some x => rfl
  · rfl

variable {σ : Type} {p : Problem ℝ} {range : Interval ℝ} {h : ¬ range.hi < range.lo}

/-- The search set up in the same way for the problem with an epigraph variable. -/
noncomputable def Setup.addEpigraph (setup : Setup ℝ EReal σ p)
    (convex : ConvexSolver ℝ EReal p.size σ) (localSolver : LocalSolver ℝ p.size σ)
    (range : Interval ℝ) (h : ¬ range.hi < range.lo) :
    Setup ℝ EReal σ (p.addEpigraph range h) where
  options := setup.options
  routine := setup.routine
  parts := Components.standard (p.addEpigraph range h) setup.options setup.routine convex
    localSolver
  clock := setup.clock
  isCancelled := setup.isCancelled

/-- The state without the last entry of every stored vector. -/
def Search.dropLast (s : Search ℝ EReal σ (p.addEpigraph range h)) : Search ℝ EReal σ p where
  progress := s.progress.map GlobalQcqp.dropLast
  pool := s.pool.map Node.dropLast
  solver := s.solver
  readings := s.readings
  polls := s.polls
  trace := s.trace.map Entry.dropLast

variable {setup : Setup ℝ EReal σ p} {convex : ConvexSolver ℝ EReal p.size σ}
  {localSolver : LocalSolver ℝ p.size σ}

namespace Setup

variable (setup) (convex) (localSolver)

theorem options_addEpigraph :
    (setup.addEpigraph convex localSolver range h).options = setup.options :=
  rfl

theorem isStandard_addEpigraph :
    (setup.addEpigraph convex localSolver range h).IsStandard convex localSolver :=
  rfl

theorem pruneThreshold_addEpigraph (progress : Progress EReal (Vector ℝ (p.stored + 1))) :
    (setup.addEpigraph convex localSolver range h).pruneThreshold progress =
      setup.pruneThreshold (progress.map dropLast) := by
  unfold pruneThreshold
  rw [Progress.hasIncumbent_map]
  rfl

theorem isGapClosed_addEpigraph (progress : Progress EReal (Vector ℝ (p.stored + 1))) :
    (setup.addEpigraph convex localSolver range h).isGapClosed progress =
      setup.isGapClosed (progress.map dropLast) := by
  unfold isGapClosed
  rw [Progress.hasIncumbent_map]
  rfl

theorem isUpperDue_addEpigraph (node : Node ℝ EReal (p.stored + 1))
    (progress : Progress EReal (Vector ℝ (p.stored + 1))) :
    (setup.addEpigraph convex localSolver range h).isUpperDue node progress =
      setup.isUpperDue node.dropLast (progress.map dropLast) := by
  unfold isUpperDue
  rw [Progress.hasIncumbent_map]
  rfl

end Setup

namespace Search

/-! ## The trace -/

variable (s : Search ℝ EReal σ (p.addEpigraph range h))

theorem hasIncumbent_dropLast :
    s.dropLast.progress.hasIncumbent = s.progress.hasIncumbent :=
  Progress.hasIncumbent_map _ s.progress

theorem dropLast_log (e : Entry ℝ EReal (p.stored + 1) p.size) :
    (s.log e).dropLast = s.dropLast.log e.dropLast := by
  simp only [log, dropLast, Array.map_push]

theorem dropLast_logAll (notices : List (Notice EReal)) :
    (logAll s notices).dropLast = logAll s.dropLast (notices.map Notice.dropLast) := by
  induction notices generalizing s with
  | nil => rfl
  | cons n notices ih =>
      rw [logAll, List.foldl_cons]
      exact (ih _).trans (congrArg (logAll · _) (s.dropLast_log (.notice n)))

theorem dropLast_report (marker : String) :
    (s.report (setup.addEpigraph convex localSolver range h) marker).dropLast =
      s.dropLast.report setup marker := by
  have hsize : s.dropLast.pool.size = s.pool.size := List.length_map _
  have hgap : s.dropLast.progress.relativeGap = s.progress.relativeGap :=
    Progress.relativeGap_map _ s.progress
  rw [report, dropLast_log, report, hsize]
  simp only [Progress.record, hgap]
  rfl

theorem isPrunable_addEpigraph (bound : EReal) :
    s.isPrunable (setup.addEpigraph convex localSolver range h) bound =
      s.dropLast.isPrunable setup bound :=
  congrArg (fun threshold : EReal ↦ decide (threshold ≤ bound))
    (setup.pruneThreshold_addEpigraph convex localSolver s.progress)

/-! ## Processing a node -/

theorem dropLast_improve (id : Int) (c : Candidate ℝ p.size) (stored : Vector ℝ (p.stored + 1)) :
    (improve (setup.addEpigraph convex localSolver range h) id c stored s).dropLast =
      improve setup id c (GlobalQcqp.dropLast stored) s.dropLast := by
  have hoffer := s.progress.offer_map GlobalQcqp.dropLast (ofNumber c.value) (some stored)
  rw [Option.map_some] at hoffer
  unfold improve
  rw [show s.dropLast.progress = s.progress.map GlobalQcqp.dropLast from rfl, hoffer]
  generalize s.progress.offer _ (some stored) = found
  obtain ⟨progress, offer⟩ := found
  simp only [Prod.map_apply, id_eq, show s.dropLast.pool = s.pool.map Node.dropLast from rfl,
    ← setup.pruneThreshold_addEpigraph convex localSolver (h := h), Pool.prune_map_dropLast]
  split
  · rw [dropLast_report, dropLast_log]
    rfl
  · rfl

variable {node : Node ℝ EReal (p.stored + 1)}

theorem dropLast_boundAbove (hp : p.epigraph = none)
    (hstandard : setup.IsStandard convex localSolver)
    (hsize : ∀ x ∈ node.relaxed, x.size = p.stored + 1) :
    (boundAbove (setup.addEpigraph convex localSolver range h) node s).map dropLast =
      boundAbove setup node.dropLast s.dropLast := by
  have hupper : (setup.addEpigraph convex localSolver range h).parts.upper node s.solver =
      setup.parts.upper node.dropLast s.solver := by
    rw [hstandard]
    exact Components.boundAbove_dropLast hsize localSolver _ s.solver
  have hnotices : (setup.parts.upper node.dropLast s.solver).notices.map Notice.dropLast =
      (setup.parts.upper node.dropLast s.solver).notices := by
    rw [hstandard]
    exact Components.map_dropLast_boundAbove localSolver _ node.dropLast s.solver
  have hsolver : s.dropLast.solver = s.solver := rfl
  simp only [boundAbove, hupper, hsolver]
  generalize setup.parts.upper node.dropLast s.solver = outcome at hnotices
  obtain ⟨result, notices, solver⟩ := outcome
  have hlogged := dropLast_logAll { s with
    solver := solver
    progress := { s.progress with upperSolves := s.progress.upperSolves + 1 } } notices
  simp only at hnotices
  rw [hnotices] at hlogged
  cases result with
  | error cause =>
      cases cause with
      | misfit cause => rfl
      | noFeasiblePoint =>
          refine congrArg Except.ok ?_
          rw [dropLast_log, dropLast_log, hlogged]
          rfl
  | ok c =>
      refine map_bind_eq (dropLast_storedPoint hp c) fun stored _ ↦ congrArg Except.ok ?_
      rw [dropLast_improve, dropLast_log, hlogged]
      rfl

theorem dropLast_branch (hnode : node.box.IsProper)
    (hsize : ∀ x ∈ node.relaxed, x.size = p.stored + 1) :
    (branch (setup.addEpigraph convex localSolver range h) node s).map dropLast =
      branch setup node.dropLast s.dropLast := by
  have hwidths : GlobalQcqp.dropLast (p.addEpigraph range h).box.widths = p.box.widths := by
    rw [Box.dropLast_widths, p.dropLast_box]
  have hselect := Branching.select_push hsize setup.options.branching p.branchable
    (p.addEpigraph range h).box.widths setup.options.minWidth
  rw [hwidths] at hselect
  have hcreated : s.dropLast.progress.nodesCreated = s.progress.nodesCreated := rfl
  simp only at hselect
  simp only [branch, Setup.options_addEpigraph, hselect]
  cases Branching.select setup.options.branching p.branchable p.box.widths
    setup.options.minWidth node.dropLast with
  | error cause => rfl
  | ok choice =>
      cases choice with
      | none => rfl
      | some i =>
          have hpoint := Branching.point_dropLast hsize setup.options.branchPoint i
          simp only [Except.map, Option.map_some, hpoint]
          cases Branching.point setup.options.branchPoint node.dropLast i with
          | error cause => rfl
          | ok value =>
              have hsplit := Node.dropLast_split? hnode i value s.progress.nodesCreated
              simp only [hcreated, ← hsplit]
              cases node.split? i.castSucc value s.progress.nodesCreated with
              | error cause => rfl
              | ok halves => rfl

/-- A node that is bounded is compared with the threshold, searched and split in step. -/
theorem dropLast_processBounded (hp : p.epigraph = none)
    (hstandard : setup.IsStandard convex localSolver) (hnode : node.box.IsProper)
    (hsize : ∀ x ∈ node.relaxed, x.size = p.stored + 1) :
    (processBounded (setup.addEpigraph convex localSolver range h) node s).map dropLast =
      processBounded setup node.dropLast s.dropLast := by
  have hdue : (setup.addEpigraph convex localSolver range h).isUpperDue node s.progress =
      setup.isUpperDue node.dropLast s.dropLast.progress :=
    setup.isUpperDue_addEpigraph convex localSolver node s.progress
  unfold processBounded
  rw [isPrunable_addEpigraph, hdue, Node.bound_dropLast]
  split
  · rfl
  · split
    · refine map_bind_eq (dropLast_boundAbove s hp hstandard hsize) fun s' _ ↦ ?_
      rw [isPrunable_addEpigraph]
      split
      · rfl
      · exact dropLast_branch s' hnode hsize
    · exact dropLast_branch s hnode hsize

theorem dropLast_recordTightened (r : Propagated ℝ EReal (p.stored + 1) σ) :
    (s.recordTightened r).dropLast = s.dropLast.recordTightened r.dropLast := by
  rw [recordTightened, dropLast_log, dropLast_logAll]
  rfl

theorem dropLast_recordLowered (r : Lowered ℝ EReal (p.stored + 1) σ) :
    (s.recordLowered r).dropLast = s.dropLast.recordLowered r.dropLast := by
  have hlogged : logAll { s.dropLast with solver := r.dropLast.solver } r.dropLast.notices =
      (logAll { s with solver := r.solver } r.notices).dropLast :=
    (dropLast_logAll { s with solver := r.solver } r.notices).symm
  simp only [recordLowered]
  rw [hlogged, Lowered.status_dropLast]
  generalize logAll { s with solver := r.solver } r.notices = s₁
  split
  · simp only [log, dropLast, Array.map_push]
    rfl
  · simp only [log, dropLast, Array.map_push]
    rfl

/-- The relaxation of an open node is made and solved in step. -/
theorem dropLast_processOpen (hp : p.epigraph = none)
    (hstandard : setup.IsStandard convex localSolver)
    (hnode : Node.IsWellFormed (p := p.addEpigraph range h) node) :
    (processOpen (setup.addEpigraph convex localSolver range h) node s).map dropLast =
      processOpen setup node.dropLast s.dropLast := by
  obtain ⟨c, hc⟩ : ∃ c, p.relaxation? setup.routine (p.restrictBox node.dropLast.box) = .ok c :=
    ⟨_, p.relaxation?_eq_ok _ _⟩
  have hc' : (p.addEpigraph range h).relaxation? setup.routine
      ((p.addEpigraph range h).restrictBox node.box) = .ok c := by
    rw [Problem.relaxation?_eq_ok, p.restrictBox_addEpigraph, ← hc, Problem.relaxation?_eq_ok]
    rfl
  obtain ⟨r, hr⟩ := Lower.solve_succeeds (p := p.addEpigraph range h) hnode.relaxed_size convex
    setup.options.lowerRetries c s.solver
  have hlower := Lower.dropLast_solve (h := h) hnode.relaxed_size convex setup.options.lowerRetries
    c s.solver
  have hr' : setup.parts.lower node.dropLast c s.dropLast.solver = .ok r.dropLast := by
    rw [hstandard]
    exact hlower.symm.trans (congrArg (Except.map _) hr)
  have hbounded := (setup.isStandard_addEpigraph convex localSolver).isWellFormed_of_lower hnode hr
  have hopen : processOpen (setup.addEpigraph convex localSolver range h) node s = _ :=
    processOpen_eq hc' hr
  rw [hopen, processOpen_eq hc hr', ← dropLast_recordLowered, Lowered.status_dropLast]
  split
  · rfl
  · exact dropLast_processBounded _ hp hstandard hbounded.isProper hbounded.relaxed_size

theorem dropLast_process (hp : p.epigraph = none)
    (hstandard : setup.IsStandard convex localSolver)
    (hnode : Node.IsWellFormed (p := p.addEpigraph range h) node) :
    (process (setup.addEpigraph convex localSolver range h) node s).map dropLast =
      process setup node.dropLast s.dropLast := by
  have hpropagate : ((setup.addEpigraph convex localSolver range h).parts.propagate node s.progress
      s.solver).map Propagated.dropLast =
        setup.parts.propagate node.dropLast s.dropLast.progress s.dropLast.solver := by
    rw [hstandard]
    exact Components.propagator_extends hp _ _ _ hnode.isProper _ _
  rw [process, process, isPrunable_addEpigraph, Node.priority_dropLast]
  split
  · rfl
  · refine map_bind_eq hpropagate fun r hr ↦ ?_
    have htightened := dropLast_recordTightened s r
    have hopen := dropLast_processOpen (s.recordTightened r) hp hstandard
      ((setup.isStandard_addEpigraph convex localSolver).isWellFormed_of_propagate hnode hr)
    rw [htightened] at hopen
    rw [Propagated.isOpen_dropLast]
    split
    · exact hopen
    · exact congrArg (fun s : Search ℝ EReal σ p ↦ Except.ok s.countInfeasible) htightened

/-! ## From turn to turn -/

theorem dropLast_updateLowerBound : s.updateLowerBound.dropLast = s.dropLast.updateLowerBound := by
  have hleast : s.dropLast.pool.minBound = s.pool.minBound := s.pool.minBound_map_dropLast
  have hresolution : s.dropLast.progress.resolutionBound = s.progress.resolutionBound := rfl
  simp only [updateLowerBound, hasIncumbent_dropLast, hleast, hresolution]
  split
  · rfl
  · rfl

theorem dropLast_conclude :
    (conclude (setup.addEpigraph convex localSolver range h) s).dropLast =
      conclude setup s.dropLast := by
  have hiterations : s.dropLast.updateLowerBound.progress.iterations =
      s.updateLowerBound.progress.iterations := by
    rw [← dropLast_updateLowerBound]
    rfl
  simp only [conclude, hiterations]
  rw [apply_ite dropLast, dropLast_report, dropLast_updateLowerBound]
  rfl

variable (setup) (convex) (localSolver) in
theorem dropLast_verdict? : Prod.map id dropLast
    (verdict? (setup.addEpigraph convex localSolver range h) s) = verdict? setup s.dropLast := by
  have hempty : s.dropLast.pool.isEmpty = s.pool.isEmpty := List.isEmpty_map
  have hgap : (setup.addEpigraph convex localSolver range h).isGapClosed s.progress =
      setup.isGapClosed s.dropLast.progress :=
    setup.isGapClosed_addEpigraph convex localSolver s.progress
  simp only [verdict?, exhausted, hempty, hgap, hasIncumbent_dropLast]
  split
  · rfl
  · split
    · rfl
    · rw [show (setup.addEpigraph convex localSolver range h).isCancelled s.polls =
        setup.isCancelled s.dropLast.polls from rfl]
      split
      · rfl
      · rfl

theorem dropLast_advance (hp : p.epigraph = none) (hstandard : setup.IsStandard convex localSolver)
    (hopen : ∀ node ∈ s.pool.nodes, Node.IsWellFormed (p := p.addEpigraph range h) node) :
    (advance (setup.addEpigraph convex localSolver range h) s).map dropLast =
      advance setup s.dropLast := by
  have hpool : s.dropLast.pool.pop? =
      s.pool.pop?.map (Prod.map Node.dropLast (Pool.map Node.dropLast)) :=
    s.pool.pop?_map_dropLast
  cases hpop : s.pool.pop? with
  | none =>
      rw [hpop] at hpool
      simp only [advance, hpop, hpool]
      rfl
  | some found =>
      obtain ⟨node, pool⟩ := found
      rw [hpop] at hpool
      have hnode := hopen node ((Pool.pop?_perm hpop).mem_iff.mpr List.mem_cons_self)
      have hprocess := dropLast_process (s.take pool) hp hstandard hnode
      have htake : (s.take pool).dropLast = s.dropLast.take (pool.map Node.dropLast) := rfl
      rw [advance_eq hpop, advance_eq hpool, ← htake, ← hprocess]
      cases process (setup.addEpigraph convex localSolver range h) node (s.take pool) with
      | error cause => rfl
      | ok s' => exact congrArg Except.ok (dropLast_conclude s')

/-- The two searches stop for the same reason, or go on to loop heads that agree. -/
theorem dropLast_turn (hp : p.epigraph = none) (hstandard : setup.IsStandard convex localSolver)
    (hopen : ∀ node ∈ s.pool.nodes, Node.IsWellFormed (p := p.addEpigraph range h) node) :
    (turn (setup.addEpigraph convex localSolver range h) s).map (Prod.map id dropLast) =
      turn setup s.dropLast := by
  have hverdict := dropLast_verdict? setup convex localSolver
    (tick (setup.addEpigraph convex localSolver range h) s)
  have htick : (tick (setup.addEpigraph convex localSolver range h) s).dropLast =
      tick setup s.dropLast := rfl
  rw [turn, turn, ← htick, ← hverdict]
  cases hfound : verdict? (setup.addEpigraph convex localSolver range h)
    (tick (setup.addEpigraph convex localSolver range h) s) with
  | mk verdict polled =>
      cases verdict with
      | some state => rfl
      | none =>
          have hpool : polled.pool = s.pool := congrArg Ledger.pool (verdict?_eq_none hfound).2.2.2
          have hadvance := dropLast_advance polled hp hstandard (hpool ▸ hopen)
          exact map_bind_eq hadvance fun _ _ ↦ rfl

/-! ## The whole search -/

variable {solver : σ} {s}

theorem dropLast_start :
    (Search.start (setup.addEpigraph convex localSolver range h) solver).dropLast =
      Search.start setup solver := by
  have hroot : (root (p.addEpigraph range h) : Node ℝ EReal (p.stored + 1)).dropLast = root p :=
    congrArg (fun box ↦ Node.fresh negInf 0 0 box none) (p.dropLast_box (h := h))
  have hpool : (Pool.push (Pool.empty setup.options.selection setup.options.hybridInterval)
      (root (p.addEpigraph range h) : Node ℝ EReal (p.stored + 1))).map Node.dropLast =
        Pool.push (Pool.empty setup.options.selection setup.options.hybridInterval) (root p) := by
    rw [← hroot]
    rfl
  have htrace : (Search.start (setup.addEpigraph convex localSolver range h) solver).trace.map
      Entry.dropLast = (Search.start setup solver).trace :=
    Array.map_singleton
  exact congrArg₂ (fun pool trace ↦ { Search.start setup solver with pool := pool, trace := trace })
    hpool htrace

theorem AtLoopHead.dropLast_turn (hp : p.epigraph = none)
    (hstandard : setup.IsStandard convex localSolver)
    (hs : AtLoopHead (setup.addEpigraph convex localSolver range h) solver s) :
    (turn (setup.addEpigraph convex localSolver range h) s).map (Prod.map id Search.dropLast) =
      turn setup s.dropLast := by
  have hpreserves :=
    (setup.isStandard_addEpigraph convex localSolver (h := h)).preserves_isWellFormed
  exact Search.dropLast_turn s hp hstandard (hs.forall_open hpreserves)

theorem AtLoopHead.dropLast (hp : p.epigraph = none)
    (hstandard : setup.IsStandard convex localSolver)
    (hs : AtLoopHead (setup.addEpigraph convex localSolver range h) solver s) :
    AtLoopHead setup solver s.dropLast := by
  induction hs with
  | start =>
      rw [dropLast_start]
      exact .start
  | next hs hturn ih =>
      have hnext := hs.dropLast_turn hp hstandard
      rw [hturn] at hnext
      exact .next ih hnext.symm

/-- Every loop head of the search without the added variable comes from one of the other search. -/
theorem AtLoopHead.exists_dropLast (hp : p.epigraph = none)
    (hstandard : setup.IsStandard convex localSolver) {s : Search ℝ EReal σ p}
    (hs : AtLoopHead setup solver s) :
    ∃ s', AtLoopHead (setup.addEpigraph convex localSolver range h) solver s' ∧
      s'.dropLast = s := by
  induction hs with
  | start => exact ⟨_, .start, dropLast_start⟩
  | next _ hturn ih =>
      obtain ⟨s', hs', rfl⟩ := ih
      have hnext := hs'.dropLast_turn hp hstandard
      rw [hturn] at hnext
      obtain ⟨⟨found, s₁⟩, hturn', heq⟩ := map_eq_ok_iff.mp hnext
      cases heq
      exact ⟨s₁, .next hs' hturn', rfl⟩

theorem dropLast_turns (hp : p.epigraph = none) (hstandard : setup.IsStandard convex localSolver)
    (hs : AtLoopHead (setup.addEpigraph convex localSolver range h) solver s) (count : ℕ) :
    (turns (setup.addEpigraph convex localSolver range h) count s).map
      (Prod.map id Search.dropLast) = turns setup count s.dropLast := by
  induction count generalizing s with
  | zero => rfl
  | succ count ih =>
      rw [turns, turns]
      refine map_bind_eq (hs.dropLast_turn hp hstandard) fun next hturn ↦ ?_
      obtain ⟨found, s'⟩ := next
      cases found with
      | some state => rfl
      | none => exact ih (.next hs hturn)

theorem dropLast_run (hp : p.epigraph = none) (hstandard : setup.IsStandard convex localSolver)
    (solver : σ) :
    (run (setup.addEpigraph convex localSolver range h) solver).map (Prod.map id Search.dropLast) =
      run setup solver := by
  have hstart : AtLoopHead (setup.addEpigraph convex localSolver range h) solver
      (Search.start (setup.addEpigraph convex localSolver range h) solver) := .start
  have hturns := dropLast_turns hp hstandard hstart (turnLimit setup)
  rw [dropLast_start] at hturns
  rw [run, run]
  refine map_bind_eq hturns fun last _ ↦ congrArg (fun s ↦ Except.ok (last.1, s)) ?_
  rw [finish, dropLast_log, dropLast_report]
  rfl

end Search

end GlobalQcqp
