import GlobalQcqp.Proofs.Candidate
import GlobalQcqp.Proofs.Search.Frames
import GlobalQcqp.Proofs.Search.Frontier
import GlobalQcqp.Proofs.Search.Stages
import GlobalQcqp.Proofs.Tightening.Refusals
/-!
# Searches that break off

A search breaks off in the turn in which one of its steps is refused.  No answer of the convex
solver is a reason for that, nor is a local answer that fits: a node is refused where it is
tightened or relaxed, where a local answer does not fit, where the epigraph variable has no place,
and where it is split at a point that crosses one of the halves.  This is so whatever the numbers
are, and the search returns if none of it happens at any loop head.
-/

namespace GlobalQcqp

variable {α β σ : Type} [Scalar α] {p : Problem α}

/-! ## Starting points -/

theorem Node.StartsAtVector.restrict?_ne_none {node : Node α β p.stored} (h : node.StartsAtVector) :
    ∀ x ∈ node.relaxed, p.restrict? x ≠ none :=
  fun x hx ↦ Option.ne_none_iff_exists'.mpr (p.restrict?_eq_some (h x hx))

/-- Whatever the convex solver answers, the relaxation of a node is solved. -/
theorem Lower.solve_succeeds [Scalar β] [Extended α β] {node : Node α β p.stored}
    (h : node.StartsAtVector) (convex : ConvexSolver α β p.size σ) (retries : ℕ)
    (c : ConvexProblem α p.size) (s : σ) : Succeeds (solve p convex retries node c s) :=
  ⟨_, solve_eq h.restrict?_ne_none convex retries c s⟩

/-- What the local solver answers about a node. It starts from the relaxed point, or from the middle
of the box. -/
def LocalSolver.answerOn (localSolver : LocalSolver α p.size σ) (node : Node α β p.stored) (s : σ) :
    LocalAnswer α :=
  let box := p.restrictBox node.box
  (localSolver (p.localProblem box (Candidate.seed box (node.relaxed.bind p.restrict?))) s).1

theorem Components.boundAbove_eq_misfit_iff {localSolver : LocalSolver α p.size σ} {tol : α}
    {node : Node α β p.stored} (h : node.StartsAtVector) {s : σ} {cause : Misfit} :
    (boundAbove p (some localSolver) tol node s : UpperOutcome α β p.size σ).result =
      .error (.misfit cause) ↔
    ∃ x ∈ (localSolver.answerOn node s).point, Candidate.fit p.size x = .error cause := by
  have hsearch : boundAbove p (some localSolver) tol node s = Candidate.search p (some localSolver)
      tol node.id (p.restrictBox node.box) (node.relaxed.bind p.restrict?) s := by
    unfold boundAbove
    cases hrelaxed : node.relaxed with
    | none => rfl
    | some x =>
        obtain ⟨y, hy⟩ := p.restrict?_eq_some (h x hrelaxed)
        simp only [Option.bind_some, hy]
  rw [hsearch]
  exact Candidate.search_eq_misfit_iff

namespace Search

theorem storedPoint_eq_error_iff {node : Node α β p.stored} {c : Candidate α p.size}
    {fault : Fault α} :
    storedPoint p node c = .error fault ↔ ¬ p.EpigraphIsPlaced ∧ fault = .misfit .position := by
  unfold storedPoint Problem.EpigraphIsPlaced
  cases hplace : p.epigraph with
  | none => simp
  | some place =>
      cases hposition : position? p.stored place with
      | none => simp [hposition, eq_comm]
      | some i => simp [hposition]

variable [Scalar β] [Extended α β]

/-! ## The steps of a turn -/

section

variable {setup : Setup α β σ p} {node : Node α β p.stored} {s : Search α β σ p} {fault : Fault α}

theorem boundAbove_eq_error_iff : boundAbove setup node s = .error fault ↔
    (∃ cause, (setup.parts.upper node s.solver).result = .error (.misfit cause) ∧
      fault = .misfit cause) ∨
    ∃ c, (setup.parts.upper node s.solver).result = .ok c ∧
      ¬ p.EpigraphIsPlaced ∧ fault = .misfit .position := by
  simp only [boundAbove]
  cases (setup.parts.upper node s.solver).result with
  | error e =>
      cases e with
      | noFeasiblePoint => simp
      | misfit cause => simp [eq_comm]
  | ok c => simp [bind_eq_error_iff, storedPoint_eq_error_iff]

/-- A node is not split only if its halves are no boxes. -/
theorem branch_eq_error_iff (hnode : node.StartsAtVector) : branch setup node s = .error fault ↔
    ∃ i value, Branching.select setup.options.branching p.branchable p.box.widths
        setup.options.minWidth node = .ok (some i) ∧
      Branching.point setup.options.branchPoint node i = .ok value ∧
      ((node.split i value s.progress.nodesCreated).1.box.isCrossed = true ∨
        (node.split i value s.progress.nodesCreated).2.box.isCrossed = true) ∧
      fault = .node .crossed := by
  obtain ⟨choice, hchoice⟩ := Branching.select_succeeds hnode setup.options.branching p.branchable
    p.box.widths setup.options.minWidth
  simp only [branch, hchoice]
  cases choice with
  | none => simp
  | some i =>
      obtain ⟨value, hvalue⟩ := Branching.point_succeeds hnode setup.options.branchPoint i
      simp only [hvalue]
      constructor
      · intro h
        rcases hhalves : node.split? i value s.progress.nodesCreated with cause | ⟨left, right⟩
        · obtain ⟨hcrossed, rfl⟩ := Node.split?_eq_error_iff.mp hhalves
          rw [hhalves] at h
          cases h
          exact ⟨i, value, rfl, hvalue, hcrossed, rfl⟩
        · rw [hhalves] at h
          cases h
      · rintro ⟨i', value', hselect, hpoint, hcrossed, rfl⟩
        cases hselect
        cases hvalue.symm.trans hpoint
        rw [Node.split?_eq_error_iff.mpr ⟨hcrossed, rfl⟩]

end

section

variable (setup : Setup α β σ p) (s : Search α β σ p)

/-- The turn from `s` is to split the node it has bounded, whether or not it has looked for a
feasible point in it. -/
inductive Branches : Node α β p.stored → Search α β σ p → Prop
  | unsearched {node s₃} (hbounded : BoundsBelow setup s node s₃)
      (hstatus : node.status ≠ .infeasible) (hbound : s₃.isPrunable setup node.bound = false)
      (hdue : setup.isUpperDue node s₃.progress = false) : Branches node s₃
  | searched {node s₃ s₄} (habove : BoundsAbove setup s node s₃ s₄)
      (hbound : s₄.isPrunable setup node.bound = false) : Branches node s₄

/-- The faults that the turn from `s` breaks off with. -/
inductive Aborts (localSolver : LocalSolver α p.size σ) : Fault α → Prop
  | tightening {node s₁ fault} (htakes : Takes setup s node s₁)
      (hfresh : s₁.isPrunable setup node.priority = false)
      (h : Components.Refuses p setup.options setup.routine node s₁.progress s₁.solver fault) :
      Aborts localSolver fault
  | relaxation {r s₂ fault} (htightens : Tightens setup s r s₂) (hopen : r.isOpen = true)
      (h : p.relaxation? setup.routine (p.restrictBox r.node.box) = .error fault) :
      Aborts localSolver fault
  | answer {node s₃ x cause} (hasks : AsksAbove setup s node s₃)
      (hx : x ∈ (localSolver.answerOn node s₃.solver).point)
      (hfit : Candidate.fit p.size x = .error cause) : Aborts localSolver (.misfit cause)
  | epigraph {node s₃ c} (hasks : AsksAbove setup s node s₃)
      (hfound : (setup.parts.upper node s₃.solver).result = .ok c)
      (hplace : ¬ p.EpigraphIsPlaced) : Aborts localSolver (.misfit .position)
  | crossed {node s₄ i value} (hbranches : Branches setup s node s₄)
      (hselect : Branching.select setup.options.branching p.branchable p.box.widths
        setup.options.minWidth node = .ok (some i))
      (hpoint : Branching.point setup.options.branchPoint node i = .ok value)
      (hcrossed : (node.split i value s₄.progress.nodesCreated).1.box.isCrossed = true ∨
        (node.split i value s₄.progress.nodesCreated).2.box.isCrossed = true) :
      Aborts localSolver (.node .crossed)

end

section

variable {setup : Setup α β σ p} {s s₁ s₂ s₃ s₄ : Search α β σ p} {node : Node α β p.stored}
  {r : Propagated α β p.stored σ} {fault : Fault α}

theorem Branches.turn_eq (h : Branches setup s node s₄) :
    turn setup s = (branch setup node s₄).map fun s ↦ (none, conclude setup s) := by
  cases h with
  | unsearched hbounded hstatus hbound hdue =>
      rw [hbounded.turn_eq hstatus, processBounded, hbound, if_neg Bool.false_ne_true, hdue,
        if_neg Bool.false_ne_true]
  | searched habove hbound => rw [habove.turn_eq, hbound, if_neg Bool.false_ne_true]

theorem exists_takes_of_error (h : turn setup s = .error fault) :
    ∃ node s₁, Takes setup s node s₁ := by
  rcases hverdict : verdict? setup (tick setup s) with ⟨_ | state, polled⟩
  · rw [turn, hverdict] at h
    rcases hpop : polled.pool.pop? with _ | ⟨node, pool⟩
    · simp only [advance, hpop] at h
      cases h
    · exact ⟨node, _, .mk hverdict hpop⟩
  · rw [turn, hverdict] at h
    cases h

/-- A turn that breaks off does so in the propagator, or goes on with an open node. -/
theorem Takes.cases_of_error (h : Takes setup s node s₁) (hturn : turn setup s = .error fault) :
    s₁.isPrunable setup node.priority = false ∧
      (setup.parts.propagate node s₁.progress s₁.solver = .error fault ∨
        ∃ r s₂, Tightens setup s r s₂ ∧ r.isOpen = true) := by
  rw [h.turn_eq, map_eq_error_iff, process] at hturn
  split at hturn
  · cases hturn
  · have hfresh := Bool.eq_false_iff.mpr ‹_›
    refine ⟨hfresh, ?_⟩
    rcases bind_eq_error_iff.mp hturn with hrefused | ⟨r, hr, hturn⟩
    · exact Or.inl hrefused
    · simp only at hturn
      split at hturn
      · exact Or.inr ⟨r, _, .mk h hfresh hr, ‹_›⟩
      · cases hturn

theorem Tightens.cases_of_error (h : Tightens setup s r s₂) (hopen : r.isOpen = true)
    (hturn : turn setup s = .error fault) :
    p.relaxation? setup.routine (p.restrictBox r.node.box) = .error fault ∨
      ∃ c, setup.parts.lower r.node c s₂.solver = .error fault ∨
        ∃ node s₃, BoundsBelow setup s node s₃ ∧ node.status ≠ .infeasible := by
  rw [h.turn_eq hopen, map_eq_error_iff] at hturn
  rcases bind_eq_error_iff.mp hturn with hrefused | ⟨c, hc, hlower⟩
  · exact Or.inl hrefused
  · refine Or.inr ⟨c, ?_⟩
    rcases bind_eq_error_iff.mp hlower with hrefused | ⟨lowered, hlowered, -⟩
    · exact Or.inl hrefused
    · refine Or.inr ⟨_, _, .mk h hopen hc hlowered, fun hstatus ↦ ?_⟩
      rw [processOpen_eq hc hlowered, if_pos hstatus] at hturn
      cases hturn

theorem BoundsBelow.cases_of_error (h : BoundsBelow setup s node s₃)
    (hstatus : node.status ≠ .infeasible) (hturn : turn setup s = .error fault) :
    AsksAbove setup s node s₃ ∧ boundAbove setup node s₃ = .error fault ∨
      ∃ s₄, Branches setup s node s₄ := by
  have hprocess := hturn
  rw [h.turn_eq hstatus, map_eq_error_iff, processBounded] at hprocess
  split at hprocess
  · cases hprocess
  · have hbound := Bool.eq_false_iff.mpr ‹_›
    split at hprocess
    · have hasks : AsksAbove setup s node s₃ := ⟨h, hstatus, hbound, ‹_›⟩
      rcases bind_eq_error_iff.mp hprocess with hrefused | ⟨s₄, habove, hprocess⟩
      · exact Or.inl ⟨hasks, hrefused⟩
      · split at hprocess
        · cases hprocess
        · exact Or.inr ⟨s₄, .searched (.mk hasks habove) (Bool.eq_false_iff.mpr ‹_›)⟩
    · exact Or.inr ⟨s₃, .unsearched h hstatus hbound (Bool.eq_false_iff.mpr ‹_›)⟩

theorem Branches.boundsBelow (h : Branches setup s node s₄) :
    ∃ s₃, BoundsBelow setup s node s₃ ∧ node.status ≠ .infeasible := by
  cases h with
  | unsearched hbounded hstatus _ _ => exact ⟨_, hbounded, hstatus⟩
  | searched habove _ =>
      obtain ⟨hasks, -⟩ := habove
      exact ⟨_, hasks.bounded, hasks.status_ne⟩

end

/-! ## Turns of a standard search -/

section

variable {setup : Setup α β σ p} {convex : ConvexSolver α β p.size σ}
  {localSolver : LocalSolver α p.size σ} {solver : σ} {s s₁ s₂ s₃ : Search α β σ p}
  {node : Node α β p.stored} {r : Propagated α β p.stored σ} {fault : Fault α}
  (hparts : setup.parts = Components.standard p setup.options setup.routine convex localSolver)
  (hs : AtLoopHead setup solver s)
include hparts hs

theorem Tightens.startsAtVector (h : Tightens setup s r s₂) : r.node.StartsAtVector := by
  obtain ⟨htakes, -, hr⟩ := h
  unfold Node.StartsAtVector
  rw [(Setup.reshapes hparts hr).relaxed_eq]
  exact hs.forall_open (Setup.preserves_startsAtVector hparts) _ htakes.mem_pool

theorem BoundsBelow.startsAtVector (h : BoundsBelow setup s node s₃) : node.StartsAtVector := by
  obtain ⟨htightens, -, -, hlower⟩ := h
  obtain ⟨last, hlast⟩ := Setup.exists_record hparts hlower
  rw [hlast]
  exact Lower.record_startsAtVector (htightens.startsAtVector hparts hs) last

theorem Tightens.lower_succeeds (h : Tightens setup s r s₂) (c : ConvexProblem α p.size) :
    Succeeds (setup.parts.lower r.node c s₂.solver) := by
  rw [hparts]
  exact Lower.solve_succeeds (h.startsAtVector hparts hs) convex _ c s₂.solver

theorem AsksAbove.upper_eq_misfit_iff (h : AsksAbove setup s node s₃) {cause : Misfit} :
    (setup.parts.upper node s₃.solver).result = .error (.misfit cause) ↔
      ∃ x ∈ (localSolver.answerOn node s₃.solver).point,
        Candidate.fit p.size x = .error cause := by
  rw [hparts]
  exact Components.boundAbove_eq_misfit_iff (h.bounded.startsAtVector hparts hs)

/-- The turn from a loop head breaks off exactly with the faults listed. -/
theorem AtLoopHead.turn_eq_error_iff :
    turn setup s = .error fault ↔ Aborts setup s localSolver fault := by
  have hpropagate (node : Node α β p.stored) (s₁ : Search α β σ p) :
      setup.parts.propagate node s₁.progress s₁.solver = .error fault ↔
        Components.Refuses p setup.options setup.routine node s₁.progress s₁.solver fault := by
    rw [hparts]
    exact Components.propagator_eq_error_iff
  constructor
  · intro hturn
    obtain ⟨node, s₁, htakes⟩ := exists_takes_of_error hturn
    obtain ⟨hfresh, hrefused | ⟨r, s₂, htightens, hopen⟩⟩ := htakes.cases_of_error hturn
    · exact .tightening htakes hfresh ((hpropagate node s₁).mp hrefused)
    rcases htightens.cases_of_error hopen hturn with hrefused | ⟨c, hrefused | hbelow⟩
    · exact .relaxation htightens hopen hrefused
    · exact absurd hrefused (succeeds_iff.mp (htightens.lower_succeeds hparts hs c) fault)
    obtain ⟨node, s₃, hbounded, hstatus⟩ := hbelow
    rcases hbounded.cases_of_error hstatus hturn with ⟨hasks, habove⟩ | ⟨s₄, hbranches⟩
    · rcases boundAbove_eq_error_iff.mp habove with ⟨cause, hmisfit, rfl⟩ | ⟨c, hfound, hplace, rfl⟩
      · obtain ⟨x, hx, hfit⟩ := (hasks.upper_eq_misfit_iff hparts hs).mp hmisfit
        exact .answer hasks hx hfit
      · exact .epigraph hasks hfound hplace
    · have hnode := hbounded.startsAtVector hparts hs
      rw [hbranches.turn_eq, map_eq_error_iff, branch_eq_error_iff hnode] at hturn
      obtain ⟨i, value, hselect, hpoint, hcrossed, rfl⟩ := hturn
      exact .crossed hbranches hselect hpoint hcrossed
  · intro haborts
    cases haborts with
    | @tightening node s₁ _ htakes hfresh h =>
        rw [htakes.turn_eq, process, hfresh, if_neg Bool.false_ne_true,
          (hpropagate node s₁).mpr h]
        rfl
    | relaxation htightens hopen h =>
        rw [htightens.turn_eq hopen, processOpen, h]
        rfl
    | answer hasks hx hfit =>
        have hmisfit := (hasks.upper_eq_misfit_iff hparts hs).mpr ⟨_, hx, hfit⟩
        have habove := boundAbove_eq_error_iff.mpr (Or.inl ⟨_, hmisfit, rfl⟩)
        rw [hasks.turn_eq, habove]
        rfl
    | epigraph hasks hfound hplace =>
        have habove := boundAbove_eq_error_iff.mpr (Or.inr ⟨_, hfound, hplace, rfl⟩)
        rw [hasks.turn_eq, habove]
        rfl
    | crossed hbranches hselect hpoint hcrossed =>
        obtain ⟨s₃, hbounded, -⟩ := hbranches.boundsBelow
        have hbranch := (branch_eq_error_iff (hbounded.startsAtVector hparts hs)).mpr
          ⟨_, _, hselect, hpoint, hcrossed, rfl⟩
        rw [hbranches.turn_eq, hbranch]
        rfl

end

/-- Where the epigraph variable has its place, ranges have a variable to range over and the local
answers fit, only numbers are left as a reason to break off: they leave the finite range, or a node
is split outside of its box. -/
theorem Aborts.isOverflow_or_crossed {setup : Setup α β σ p} {s : Search α β σ p}
    {localSolver : LocalSolver α p.size σ} {fault : Fault α}
    (h : Aborts setup s localSolver fault) (hplace : p.EpigraphIsPlaced)
    (hsize : setup.options.propagation.usesRanges = true → 0 < p.size)
    (hlocal : localSolver.AnswersFit) : fault.IsOverflow ∨ fault = .node .crossed := by
  cases h with
  | tightening _ _ h => exact Or.inl (h.isOverflow hplace hsize)
  | relaxation _ _ h => exact Or.inl (FailsByOverflow.relaxation? p _ _ h)
  | answer _ hx hfit =>
      obtain ⟨v, hv⟩ := hlocal _ _ _ hx
      cases hv.symm.trans hfit
  | epigraph _ _ hnone => exact absurd hplace hnone
  | crossed _ _ _ _ => exact Or.inr rfl

/-! ## From turns to the whole search -/

section

variable {setup : Setup α β σ p} {solver : σ} {s : Search α β σ p} {cause : Fault α}

theorem AtLoopHead.iterations_le (hs : AtLoopHead setup solver s) :
    s.progress.iterations ≤ setup.options.maxNodes := by
  cases hs with
  | start => exact Nat.zero_le _
  | next hs hturn => exact (turn_eq_none hturn).iterations_le hs.countsNodes

/-- The turns that are left at a loop head decide how the search ends. -/
theorem AtLoopHead.turns_eq (hs : AtLoopHead setup solver s) {count : ℕ}
    (hcount : count + s.progress.iterations = turnLimit setup) :
    turns setup (turnLimit setup) (Search.start setup solver) = turns setup count s := by
  induction hs generalizing count with
  | start => rw [← hcount]; rfl
  | @next s s' hs hturn ih =>
      have hnext : s'.progress.iterations = s.progress.iterations + 1 :=
        (turn_eq_none hturn).iterations_eq
      have hleft : count + 1 + s.progress.iterations = turnLimit setup := by omega
      rw [ih hleft, turns, hturn, ok_bind]

theorem AtLoopHead.exists_turn_of_error {count : ℕ} (hs : AtLoopHead setup solver s)
    (h : turns setup count s = .error cause) :
    ∃ head, AtLoopHead setup solver head ∧ turn setup head = .error cause := by
  induction count generalizing s with
  | zero => cases h
  | succ count ih =>
      rcases bind_eq_error_iff.mp h with hturn | ⟨⟨found, s'⟩, hturn, h⟩
      · exact ⟨s, hs, hturn⟩
      · cases found with
        | some state => cases h
        | none => exact ih (.next hs hturn) h

/-- A run breaks off where one of its turns does. -/
theorem run_eq_error_iff : run setup solver = .error cause ↔
    ∃ s, AtLoopHead setup solver s ∧ turn setup s = .error cause := by
  constructor
  · intro h
    rcases bind_eq_error_iff.mp h with hturns | ⟨_, -, h⟩
    · exact AtLoopHead.start.exists_turn_of_error hturns
    · cases h
  · rintro ⟨s, hs, hturn⟩
    have hle := hs.iterations_le
    obtain ⟨count, hcount⟩ : ∃ count, count + 1 + s.progress.iterations = turnLimit setup :=
      ⟨setup.options.maxNodes + 3 - s.progress.iterations, by unfold turnLimit; omega⟩
    rw [run, hs.turns_eq hcount, turns, hturn]
    rfl

end

end Search

variable [Scalar β] [Extended α β]

namespace SearchTree

variable {setup : Setup α β σ p} {convex : ConvexSolver α β p.size σ}
  {localSolver : LocalSolver α p.size σ} {t : SearchTree α β σ p} {solver : σ}

omit [Scalar β] [Extended α β] in
theorem eq_of_make (h : make setup = .ok t) : t = ⟨setup, .initialized, none⟩ := by
  obtain ⟨c, -, h⟩ := bind_eq_ok_iff.mp h
  cases h
  rfl

omit [Scalar β] [Extended α β] in
theorem make_of_relaxation?
    (h : (p.relaxation? setup.routine (p.restrictBox p.box)).toOption.isSome = true) :
    make setup = .ok ⟨setup, .initialized, none⟩ := by
  rw [make]
  cases hc : p.relaxation? setup.routine (p.restrictBox p.box) with
  | error fault =>
      rw [hc] at h
      cases h
  | ok c => rfl

/-- A tree that has not been searched is searched by one run. -/
theorem solve_eq_error_iff (hinitialized : t.state = .initialized) {cause : TreeError α} :
    t.solve solver = .error cause ↔
      ∃ fault, cause = .fault fault ∧ Search.run t.setup solver = .error fault := by
  rw [solve, hinitialized]
  cases Search.run t.setup solver with
  | error fault => simp [eq_comm]
  | ok found => simp

/-- A search breaks off with a fault exactly when one of its turns does, and returns if none does.
If the epigraph variable has its place, ranges have a variable to range over and the local answers
fit, then a search that breaks off has met a number out of range or a split outside of the box,
whatever the solvers answer. -/
theorem solve_aborts_iff (hmake : make setup = .ok t)
    (hparts : setup.parts = Components.standard p setup.options setup.routine convex localSolver)
    (solver : σ) :
    (∀ cause, t.solve solver = .error cause ↔ ∃ s fault, Search.AtLoopHead setup solver s ∧
      Search.Aborts setup s localSolver fault ∧ cause = .fault fault) ∧
    ((∃ result t', t.solve solver = .ok (result, t')) ↔
      ∀ s, Search.AtLoopHead setup solver s → ∀ fault, ¬ Search.Aborts setup s localSolver fault) ∧
    (p.EpigraphIsPlaced → (setup.options.propagation.usesRanges = true → 0 < p.size) →
      localSolver.AnswersFit → ∀ cause, t.solve solver = .error cause →
        ∃ fault, cause = .fault fault ∧ (fault.IsOverflow ∨ fault = .node .crossed)) := by
  obtain rfl := eq_of_make hmake
  have haborts (cause : TreeError α) :
      solve (⟨setup, .initialized, none⟩ : SearchTree α β σ p) solver = .error cause ↔
        ∃ s fault, Search.AtLoopHead setup solver s ∧ Search.Aborts setup s localSolver fault ∧
          cause = .fault fault := by
    rw [solve_eq_error_iff rfl]
    constructor
    · rintro ⟨fault, rfl, hrun⟩
      obtain ⟨s, hs, hturn⟩ := Search.run_eq_error_iff.mp hrun
      exact ⟨s, fault, hs, (hs.turn_eq_error_iff hparts).mp hturn, rfl⟩
    · rintro ⟨s, fault, hs, hturn, rfl⟩
      exact ⟨fault, rfl,
        Search.run_eq_error_iff.mpr ⟨s, hs, (hs.turn_eq_error_iff hparts).mpr hturn⟩⟩
  refine ⟨haborts, ⟨?_, fun hnone ↦ ?_⟩, ?_⟩
  · rintro ⟨result, t', hsolve⟩ s hs fault hturn
    cases hsolve.symm.trans ((haborts (.fault fault)).mpr ⟨s, fault, hs, hturn, rfl⟩)
  · have hreturns : Succeeds (solve ⟨setup, .initialized, none⟩ solver) := by
      refine succeeds_iff.mpr fun cause hrefused ↦ ?_
      obtain ⟨s, fault, hs, hturn, -⟩ := (haborts cause).mp hrefused
      exact hnone s hs fault hturn
    obtain ⟨⟨result, t'⟩, hsolve⟩ := hreturns
    exact ⟨result, t', hsolve⟩
  · intro hplace hsize hlocal cause hrefused
    obtain ⟨s, fault, -, hturn, rfl⟩ := (haborts cause).mp hrefused
    exact ⟨fault, rfl, hturn.isOverflow_or_crossed hplace hsize hlocal⟩

end SearchTree

/-! ## On the machine line -/

namespace MachineLine

/-- Answers the start with a coordinate too many. -/
def pairSolver : LocalSolver Float 1 Unit :=
  fun q s ↦ (⟨some (.ofVector (q.start.push 0)), ""⟩, s)

def pairTree : SearchTree Float Float Unit problem :=
  { tree with setup := { tree.setup with
      parts := Components.standard problem options routine Tangent.rangeSolver pairSolver } }

/-- An interval so far out that the sum of its ends is infinite. -/
def farBox : Box Float 1 :=
  ⟨#v[1e308], #v[1.5e308]⟩

abbrev farProblem : Problem Float :=
  { problem with
    box := farBox
    not_crossed := by decide +kernel }

def farTree : SearchTree Float Float Unit farProblem where
  setup :=
    { options := options
      routine := routine
      parts := Components.standard farProblem options routine Tangent.rangeSolver noAnswer
      clock := fun _ ↦ 0
      isCancelled := fun _ ↦ false }
  state := .initialized
  search := none

theorem relaxation?_root :
    (problem.relaxation? routine (problem.restrictBox problem.box)).toOption.isSome = true := by
  decide +kernel

theorem make_tree : SearchTree.make tree.setup = .ok tree :=
  SearchTree.make_of_relaxation? relaxation?_root

theorem make_pairTree : SearchTree.make pairTree.setup = .ok pairTree :=
  SearchTree.make_of_relaxation? relaxation?_root

theorem make_farTree : SearchTree.make farTree.setup = .ok farTree := by
  refine SearchTree.make_of_relaxation? ?_
  decide +kernel

theorem tree_returns : ∃ result t', tree.solve () = .ok (result, t') := by
  have hrun : (tree.solve ()).toOption.isSome = true := by
    decide +kernel
  cases hsolve : tree.solve () with
  | error cause =>
      rw [hsolve] at hrun
      cases hrun
  | ok found => exact ⟨found.1, found.2, rfl⟩

theorem pairTree_refused : pairTree.solve () = .error (.fault (.misfit .content)) := by
  have hrun : refusal? (pairTree.solve ()) = some (.fault (.misfit .content)) := by
    decide +kernel
  exact refusal?_eq_some_iff.mp hrun

theorem farTree_refused : farTree.solve () = .error (.fault (.node .crossed)) := by
  have hrun : refusal? (farTree.solve ()) = some (.fault (.node .crossed)) := by
    decide +kernel
  exact refusal?_eq_some_iff.mp hrun

/-- A local answer with a coordinate too many breaks the search off, and so does a split at an
infinite point.  Without an answer the search on the unit interval returns. -/
theorem solve_aborts_line :
    (∃ s, Search.AtLoopHead pairTree.setup () s ∧
      Search.Aborts pairTree.setup s pairSolver (.misfit .content)) ∧
    (∃ s, Search.AtLoopHead farTree.setup () s ∧
      Search.Aborts farTree.setup s noAnswer (.node .crossed)) ∧
    ∀ s, Search.AtLoopHead tree.setup () s →
      ∀ fault, ¬ Search.Aborts tree.setup s noAnswer fault := by
  obtain ⟨hpair, -⟩ := SearchTree.solve_aborts_iff make_pairTree rfl ()
  obtain ⟨hfar, -⟩ := SearchTree.solve_aborts_iff make_farTree rfl ()
  obtain ⟨-, hline, -⟩ := SearchTree.solve_aborts_iff make_tree rfl ()
  refine ⟨?_, ?_, hline.mp tree_returns⟩
  · obtain ⟨s, fault, hs, hturn, hfault⟩ := (hpair _).mp pairTree_refused
    cases hfault
    exact ⟨s, hs, hturn⟩
  · obtain ⟨s, fault, hs, hturn, hfault⟩ := (hfar _).mp farTree_refused
    cases hfault
    exact ⟨s, hs, hturn⟩

end MachineLine

end GlobalQcqp
