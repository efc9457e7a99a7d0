import GlobalQcqp.Proofs.Except
import GlobalQcqp.Proofs.Node.Branching
import GlobalQcqp.Proofs.Node.Pool
import GlobalQcqp.Search.Run
/-!
# What one node does to a search

A ledger is what a search has established together with its open nodes; the state of the solvers and
the trace are left out.  Processing a node takes one ledger to another in one of a few ways, which
the relations of this module list with all that is known in each.  What holds of a search at every
loop head is proved for these relations.
-/

namespace GlobalQcqp

variable {α β σ : Type} [Scalar α] [Scalar β] [Extended α β] {p : Problem α}

/-- What a search has established, and its open nodes. -/
structure Ledger (β : Type) (p : Problem α) where
  progress : Progress β (Vector α p.stored)
  pool : Pool α β p.stored

def Search.ledger (s : Search α β σ p) : Ledger β p :=
  ⟨s.progress, s.pool⟩

namespace Ledger

variable (l : Ledger β p)

def countPruned (count : Nat) : Ledger β p :=
  { l with progress := { l.progress with nodesPruned := l.progress.nodesPruned + count } }

def countInfeasible : Ledger β p :=
  { l with progress := { l.progress with nodesInfeasible := l.progress.nodesInfeasible + 1 } }

/-- Counts a relaxation that was solved. -/
def countLower (status : LowerStatus) : Ledger β p :=
  { l with progress := { l.progress with
      lowerSolves := l.progress.lowerSolves + 1
      lowerFailures := l.progress.lowerFailures + if status = .failed then 1 else 0 } }

/-- Counts a search for a feasible point. -/
def countUpper : Ledger β p :=
  { l with progress := { l.progress with upperSolves := l.progress.upperSolves + 1 } }

/-- Takes a better value, and drops the open nodes it rules out. -/
def improve (setup : Setup α β σ p) (value : β) (stored : Vector α p.stored) : Ledger β p :=
  let progress := { l.progress with
    incumbentValue := value
    incumbent := some stored
    incumbentUpdates := l.progress.incumbentUpdates + 1 }
  let kept := l.pool.prune (setup.pruneThreshold progress)
  countPruned ⟨progress, kept.1⟩ kept.2

/-- Sets the bound of a node that is too narrow aside. -/
def setAside (bound : β) : Ledger β p :=
  { l with progress := { l.progress with
      resolutionBound := Scalar.min l.progress.resolutionBound bound
      resolutionNodes := l.progress.resolutionNodes + 1 } }

def pushHalves (left right : Node α β p.stored) : Ledger β p where
  progress := { l.progress with nodesCreated := l.progress.nodesCreated + 2 }
  pool := (l.pool.push left).push right

/-- The global lower bound after a node. -/
def raisedBound : β :=
  let least := Scalar.min l.pool.minBound l.progress.resolutionBound
  let outstanding := Scalar.isFinite least || !decide (0 < least)
  if !outstanding && !l.progress.hasIncumbent then l.progress.lowerBound
  else
    let candidate := if outstanding then least else l.progress.incumbentValue
    Scalar.max l.progress.lowerBound (Scalar.min candidate l.progress.incumbentValue)

def updateLowerBound : Ledger β p :=
  { l with progress := { l.progress with lowerBound := l.raisedBound } }

variable (setup : Setup α β σ p)

/-- The search for a feasible point of a node. -/
inductive BoundAbove (node : Node α β p.stored) : Ledger β p → Prop
  | missed : BoundAbove node l.countUpper
  | improved {s c stored} (hfound : (setup.parts.upper node s).result = .ok c)
      (hstored : Search.storedPoint p node c = .ok stored)
      (hlt : (ofNumber c.value : β) < l.progress.incumbentValue) :
      BoundAbove node (l.countUpper.improve setup (ofNumber c.value) stored)

/-- The way a bounded node ends. -/
inductive Ending (node : Node α β p.stored) : Ledger β p → Prop
  | pruned (hbound : setup.pruneThreshold l.progress ≤ node.bound) : Ending node (l.countPruned 1)
  | tooNarrow (hbound : ¬ setup.pruneThreshold l.progress ≤ node.bound)
      (hselect : Branching.select setup.options.branching p.branchable p.box.widths
        setup.options.minWidth node = .ok none) : Ending node (l.setAside node.bound)
  | split {i value left right} (hbound : ¬ setup.pruneThreshold l.progress ≤ node.bound)
      (hselect : Branching.select setup.options.branching p.branchable p.box.widths
        setup.options.minWidth node = .ok (some i))
      (hpoint : Branching.point setup.options.branchPoint node i = .ok value)
      (hsplit : node.split? i value l.progress.nodesCreated = .ok (left, right)) :
      Ending node (l.pushHalves left right)

/-- What the propagator makes of a node that is not stale. -/
def Tightens (node : Node α β p.stored) (r : Propagated α β p.stored σ) : Prop :=
  ¬ setup.pruneThreshold l.progress ≤ node.priority ∧
    ∃ s, setup.parts.propagate node l.progress s = .ok r

/-- The node that comes from solving the relaxation of a node. -/
def BoundsBelow (node bounded : Node α β p.stored) : Prop :=
  ∃ c s r, p.relaxation? setup.routine (p.restrictBox node.box) = .ok c ∧
    setup.parts.lower node c s = .ok r ∧ r.node = bounded

/-- The way a node taken from the pool is dealt with. -/
inductive Process (node : Node α β p.stored) : Ledger β p → Prop
  | stale (hstale : setup.pruneThreshold l.progress ≤ node.priority) :
      Process node (l.countPruned 1)
  | closed {r} (hr : l.Tightens setup node r) (hclosed : r.isOpen = false) :
      Process node l.countInfeasible
  | refuted {r bounded} (hr : l.Tightens setup node r) (hopen : r.isOpen = true)
      (hlower : BoundsBelow setup r.node bounded) (hstatus : bounded.status = .infeasible) :
      Process node (l.countLower bounded.status).countInfeasible
  | bounded {r bounded l' l''} (hr : l.Tightens setup node r) (hopen : r.isOpen = true)
      (hlower : BoundsBelow setup r.node bounded) (hstatus : bounded.status ≠ .infeasible)
      (habove : l' = l.countLower bounded.status ∨
        ¬ setup.pruneThreshold l.progress ≤ bounded.bound ∧
          (l.countLower bounded.status).BoundAbove setup bounded l')
      (hend : l'.Ending setup bounded l'') : Process node l''

/-! ## Open nodes -/

/-- A node that is dealt with past its relaxation, in its last form. -/
def Refines (node bounded : Node α β p.stored) : Prop :=
  ∃ r, l.Tightens setup node r ∧ r.isOpen = true ∧ BoundsBelow setup r.node bounded ∧
    bounded.status ≠ .infeasible

/-- One of the two nodes that a node is split into. -/
def IsHalf (node half : Node α β p.stored) : Prop :=
  ∃ i value id left right, Branching.select setup.options.branching p.branchable p.box.widths
      setup.options.minWidth node = .ok (some i) ∧
    Branching.point setup.options.branchPoint node i = .ok value ∧
    node.split? i value id = .ok (left, right) ∧ (half = left ∨ half = right)

variable {l setup} {l' : Ledger β p} {node n : Node α β p.stored}

theorem BoundAbove.mem_of_mem_pool (h : l.BoundAbove setup node l') (hn : n ∈ l'.pool.nodes) :
    n ∈ l.pool.nodes := by
  cases h with
  | missed => exact hn
  | improved _ _ _ => exact (Pool.mem_prune.mp hn).1

theorem Ending.mem_pool (h : l.Ending setup node l') (hn : n ∈ l'.pool.nodes) :
    n ∈ l.pool.nodes ∨
      ¬ setup.pruneThreshold l.progress ≤ node.bound ∧ IsHalf setup node n := by
  cases h with
  | pruned _ => exact Or.inl hn
  | tooNarrow _ _ => exact Or.inl hn
  | split hbound hselect hpoint hsplit =>
      rcases List.mem_cons.mp hn with rfl | hn
      · exact Or.inr ⟨hbound, _, _, _, _, _, hselect, hpoint, hsplit, Or.inr rfl⟩
      rcases List.mem_cons.mp hn with rfl | hn
      · exact Or.inr ⟨hbound, _, _, _, _, _, hselect, hpoint, hsplit, Or.inl rfl⟩
      · exact Or.inl hn

/-- A node that is open once another one is processed was open before, or is a half of it. -/
theorem Process.mem_pool (h : l.Process setup node l') (hn : n ∈ l'.pool.nodes) :
    n ∈ l.pool.nodes ∨ ∃ bounded, l.Refines setup node bounded ∧ IsHalf setup bounded n := by
  cases h with
  | stale _ => exact Or.inl hn
  | closed _ _ => exact Or.inl hn
  | refuted _ _ _ _ => exact Or.inl hn
  | bounded hr hopen hlower hstatus habove hend =>
      rcases hend.mem_pool hn with hn | ⟨_, hhalf⟩
      · rcases habove with rfl | ⟨_, habove⟩
        · exact Or.inl hn
        · exact Or.inl (habove.mem_of_mem_pool hn)
      · exact Or.inr ⟨_, ⟨_, hr, hopen, hlower, hstatus⟩, hhalf⟩

/-! ## What stays the same -/

/-- The parts of a ledger that no way of dealing with a node changes. -/
structure Agrees (l l' : Ledger β p) : Prop where
  iterations_eq : l'.progress.iterations = l.progress.iterations
  lowerBound_eq : l'.progress.lowerBound = l.progress.lowerBound
  selection_eq : l'.pool.selection = l.pool.selection

omit [Scalar β] [Extended α β] in
theorem Agrees.trans {l'' : Ledger β p} (h : l.Agrees l') (h' : l'.Agrees l'') : l.Agrees l'' where
  iterations_eq := h'.iterations_eq.trans h.iterations_eq
  lowerBound_eq := h'.lowerBound_eq.trans h.lowerBound_eq
  selection_eq := h'.selection_eq.trans h.selection_eq

theorem BoundAbove.agrees (h : l.BoundAbove setup node l') : l.Agrees l' := by
  cases h with
  | missed => exact ⟨rfl, rfl, rfl⟩
  | improved _ _ _ => exact ⟨rfl, rfl, rfl⟩

theorem Ending.agrees (h : l.Ending setup node l') : l.Agrees l' := by
  cases h with
  | pruned _ => exact ⟨rfl, rfl, rfl⟩
  | tooNarrow _ _ => exact ⟨rfl, rfl, rfl⟩
  | split _ _ _ _ => exact ⟨rfl, rfl, rfl⟩

theorem Process.agrees (h : l.Process setup node l') : l.Agrees l' := by
  cases h with
  | stale _ => exact ⟨rfl, rfl, rfl⟩
  | closed _ _ => exact ⟨rfl, rfl, rfl⟩
  | refuted _ _ _ _ => exact ⟨rfl, rfl, rfl⟩
  | @bounded _ bounded _ _ _ _ _ _ habove hend =>
      have hcounted : l.Agrees (l.countLower bounded.status) := ⟨rfl, rfl, rfl⟩
      rcases habove with rfl | ⟨_, habove⟩
      · exact hcounted.trans hend.agrees
      · exact (hcounted.trans habove.agrees).trans hend.agrees

end Ledger

/-- A property of nodes that the root has, that a node keeps as it is refined, and that passes to
its halves. -/
structure Setup.Preserves (setup : Setup α β σ p) (P : Node α β p.stored → Prop) : Prop where
  root : P (Search.root p)
  refine : ∀ {l : Ledger β p} {node bounded}, P node → l.Refines setup node bounded → P bounded
  half : ∀ {node half}, P node → Ledger.IsHalf setup node half → P half

namespace Search

section Log

variable {α β σ : Type} [Scalar α] {p : Problem α}

@[simp] theorem ledger_progress (s : Search α β σ p) : s.ledger.progress = s.progress := rfl

@[simp] theorem ledger_pool (s : Search α β σ p) : s.ledger.pool = s.pool := rfl

theorem ledger_log (s : Search α β σ p) (e : Entry α β p.stored p.size) :
    (s.log e).ledger = s.ledger :=
  rfl

theorem ledger_logAll (s : Search α β σ p) (notices : List (Notice β)) :
    (s.logAll notices).ledger = s.ledger := by
  induction notices generalizing s with
  | nil => rfl
  | cons n notices ih => exact ih (s.log (.notice n))

theorem solver_logAll (s : Search α β σ p) (notices : List (Notice β)) :
    (s.logAll notices).solver = s.solver := by
  induction notices generalizing s with
  | nil => rfl
  | cons n notices ih => exact ih (s.log (.notice n))

end Log

variable {setup : Setup α β σ p} {node : Node α β p.stored} {s s' : Search α β σ p}

theorem ledger_updateLowerBound (s : Search α β σ p) :
    s.updateLowerBound.ledger = s.ledger.updateLowerBound := by
  by_cases hwaits : (!(Scalar.isFinite (Scalar.min s.pool.minBound s.progress.resolutionBound) ||
      !decide (0 < Scalar.min s.pool.minBound s.progress.resolutionBound)) &&
        !s.progress.hasIncumbent) = true
  · have hkept : s.updateLowerBound = s := if_pos hwaits
    have hbound : s.ledger.raisedBound = s.progress.lowerBound := if_pos hwaits
    rw [hkept, Ledger.updateLowerBound, hbound]
    rfl
  · have hraised : s.updateLowerBound = { s with progress := { s.progress with
        lowerBound := s.ledger.raisedBound } } :=
      (if_neg hwaits).trans (by rw [show s.ledger.raisedBound = _ from if_neg hwaits]; rfl)
    rw [hraised]
    rfl

theorem ledger_improve (id : Int) (c : Candidate α p.size) (stored : Vector α p.stored)
    (s : Search α β σ p) : (improve setup id c stored s).ledger =
      if (ofNumber c.value : β) < s.ledger.progress.incumbentValue then
        s.ledger.improve setup (ofNumber c.value) stored
      else s.ledger := by
  by_cases hlt : (ofNumber c.value : β) < s.ledger.progress.incumbentValue
  · have hoffer : s.progress.offer (ofNumber c.value) (some stored) = ({ s.progress with
        incumbentValue := ofNumber c.value
        incumbent := some stored
        incumbentUpdates := s.progress.incumbentUpdates + 1 }, .accepted) := if_pos hlt
    rw [if_pos hlt, improve, hoffer]
    rfl
  · have hoffer : s.progress.offer (ofNumber c.value) (some stored) = (s.progress, .rejected) :=
      if_neg hlt
    rw [if_neg hlt, improve, hoffer]
    rfl

theorem boundAbove_ledger (h : boundAbove setup node s = .ok s') :
    s.ledger.BoundAbove setup node s'.ledger := by
  have hcount (notices : List (Notice β)) (u : σ) : (logAll { s with
      solver := u
      progress := { s.progress with upperSolves := s.progress.upperSolves + 1 } } notices).ledger =
        s.ledger.countUpper :=
    ledger_logAll _ notices
  simp only [boundAbove] at h
  split at h
  · cases h
  · cases h
    rw [ledger_log, ledger_log, hcount]
    exact .missed
  · have hfound := ‹(setup.parts.upper node s.solver).result = _›
    obtain ⟨stored, hstored, h⟩ := bind_eq_ok_iff.mp h
    cases h
    rw [ledger_improve, ledger_log, hcount]
    split
    · exact .improved hfound hstored ‹_›
    · exact .missed

theorem branch_ledger (hbound : ¬ setup.pruneThreshold s.progress ≤ node.bound)
    (h : branch setup node s = .ok s') : s.ledger.Ending setup node s'.ledger := by
  simp only [branch] at h
  split at h
  · cases h
  · cases h
    exact .tooNarrow hbound ‹_›
  · split at h
    · cases h
    · split at h
      · cases h
      · cases h
        exact .split hbound ‹_› ‹_› ‹_›

theorem isPrunable_iff {bound : β} :
    s.isPrunable setup bound = true ↔ setup.pruneThreshold s.ledger.progress ≤ bound :=
  decide_eq_true_iff

theorem processBounded_ledger (h : processBounded setup node s = .ok s') :
    ∃ l, (l = s.ledger ∨ ¬ setup.pruneThreshold s.progress ≤ node.bound ∧
      s.ledger.BoundAbove setup node l) ∧ l.Ending setup node s'.ledger := by
  unfold processBounded at h
  split at h
  · cases h
    exact ⟨s.ledger, Or.inl rfl, .pruned (isPrunable_iff.mp ‹_›)⟩
  · have hbound : ¬ setup.pruneThreshold s.progress ≤ node.bound :=
      fun hle ↦ absurd (isPrunable_iff.mpr hle) ‹_›
    split at h
    · obtain ⟨s₁, habove, h⟩ := bind_eq_ok_iff.mp h
      refine ⟨s₁.ledger, Or.inr ⟨hbound, boundAbove_ledger habove⟩, ?_⟩
      split at h
      · cases h
        exact .pruned (isPrunable_iff.mp ‹_›)
      · exact branch_ledger (fun hle ↦ absurd (isPrunable_iff.mpr hle) ‹_›) h
    · exact ⟨s.ledger, Or.inl rfl, branch_ledger hbound h⟩

theorem processOpen_ledger {r : Propagated α β p.stored σ}
    (hr : s.ledger.Tightens setup node r) (hopen : r.isOpen = true)
    (h : processOpen setup r.node s = .ok s') : s.ledger.Process setup node s'.ledger := by
  obtain ⟨c, hc, h⟩ := bind_eq_ok_iff.mp h
  obtain ⟨lowered, hlowered, h⟩ := bind_eq_ok_iff.mp h
  have hlower : Ledger.BoundsBelow setup r.node lowered.node :=
    ⟨c, s.solver, lowered, hc, hlowered, rfl⟩
  have hlog : (logAll { s with solver := lowered.solver } lowered.notices).ledger = s.ledger :=
    ledger_logAll _ _
  simp only at h
  generalize logAll { s with solver := lowered.solver } lowered.notices = s₁ at h hlog
  rw [← hlog] at hr ⊢
  split at h
  · have hstatus := ‹lowered.node.status = .infeasible›
    cases h
    have hprocess := Ledger.Process.refuted hr hopen hlower hstatus
    rw [hstatus] at hprocess
    exact hprocess
  · have hstatus := ‹lowered.node.status = .failed›
    obtain ⟨l, habove, hend⟩ := processBounded_ledger h
    refine .bounded hr hopen hlower (by rw [hstatus]; decide) ?_ hend
    rw [hstatus]
    exact habove
  · have hne : lowered.node.status ≠ .infeasible := ‹_›
    have hnofail : (if lowered.node.status = .failed then 1 else 0) = 0 := if_neg ‹_›
    obtain ⟨l, habove, hend⟩ := processBounded_ledger h
    refine .bounded hr hopen hlower hne ?_ hend
    rw [Ledger.countLower, hnofail]
    exact habove

/-- Processing a node is one of the ways a ledger lists. -/
theorem process_ledger (h : process setup node s = .ok s') :
    s.ledger.Process setup node s'.ledger := by
  unfold process at h
  split at h
  · cases h
    exact .stale (isPrunable_iff.mp ‹_›)
  · obtain ⟨r, hr, h⟩ := bind_eq_ok_iff.mp h
    have htightens : s.ledger.Tightens setup node r :=
      ⟨fun hle ↦ absurd (isPrunable_iff.mpr hle) ‹_›, s.solver, hr⟩
    have hlog : ((logAll { s with solver := r.solver } r.notices).log
        (.propagated r.node r.isOpen)).ledger = s.ledger :=
      ledger_logAll _ _
    generalize (logAll { s with solver := r.solver } r.notices).log
      (.propagated r.node r.isOpen) = s₁ at h hlog
    rw [← hlog] at htightens ⊢
    split at h
    · exact processOpen_ledger htightens ‹_› h
    · cases h
      exact .closed htightens (Bool.eq_false_iff.mpr ‹_›)

end Search

end GlobalQcqp
