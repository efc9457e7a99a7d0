import GlobalQcqp.Proofs.Search.Step
/-!
# Loop heads

A loop head is the state before a turn.  A property of ledgers that holds at the start and passes
from turn to turn holds at every loop head.  Each created node is taken from the pool at most once,
so the limit on created nodes stops a search before its turns are used up, and every search ends at
a loop head with a reason to stop.
-/

namespace GlobalQcqp

variable {α β σ : Type} [Scalar α] [Scalar β] [Extended α β] {p : Problem α}

namespace Ledger

def start (setup : Setup α β σ p) : Ledger β p where
  progress := { Progress.start with nodesCreated := 1 }
  pool := (Pool.empty setup.options.selection setup.options.hybridInterval).push (Search.root p)

/-- The ledger once a node is taken, with the clock at `time`. -/
def take (l : Ledger β p) (time : β) (pool : Pool α β p.stored) : Ledger β p where
  progress := { l.progress with elapsed := time, iterations := l.progress.iterations + 1 }
  pool := pool

/-- A turn from loop head to loop head. -/
inductive Turn (setup : Setup α β σ p) (l : Ledger β p) : Ledger β p → Prop
  | mk {time node pool l'} (hgap : setup.isGapClosed l.progress = false)
      (hnodes : l.progress.nodesCreated ≤ setup.options.maxNodes)
      (hpop : l.pool.pop? = some (node, pool))
      (hprocess : (l.take time pool).Process setup node l') : Turn setup l l'.updateLowerBound

end Ledger

namespace Search

variable (setup : Setup α β σ p) (solver : σ)

/-- The states of a search before each turn. -/
inductive AtLoopHead : Search α β σ p → Prop
  | start : AtLoopHead (Search.start setup solver)
  | next {s s'} (hs : AtLoopHead s) (hturn : turn setup s = .ok (none, s')) : AtLoopHead s'

/-- The reasons to stop at a loop head. -/
inductive Stops (s : Search α β σ p) : RunState → Prop
  | exhausted (hpool : s.pool.nodes = []) : Stops s (exhausted setup s)
  | gapClosed (hpool : s.pool.nodes ≠ []) (hgap : setup.isGapClosed s.progress = true) :
      Stops s .converged
  | interrupted (hpool : s.pool.nodes ≠ []) (hgap : setup.isGapClosed s.progress = false)
      (hcancelled : setup.isCancelled s.polls = true) : Stops s .interrupted
  | limited {state} (hpool : s.pool.nodes ≠ []) (hgap : setup.isGapClosed s.progress = false)
      (hlimit : limit? setup s = some state) : Stops s state

variable {setup solver} {s s' : Search α β σ p} {state : RunState}

theorem verdict?_eq_some (h : verdict? setup s = (some state, s')) :
    Stops setup s state ∧ s'.ledger = s.ledger := by
  unfold verdict? at h
  split at h
  · cases h
    exact ⟨.exhausted (Pool.isEmpty_iff.mp ‹_›), rfl⟩
  · have hpool : s.pool.nodes ≠ [] := fun hnil ↦ absurd (Pool.isEmpty_iff.mpr hnil) ‹_›
    split at h
    · cases h
      exact ⟨.gapClosed hpool ‹_›, rfl⟩
    · have hgap := Bool.eq_false_iff.mpr ‹_›
      simp only at h
      split at h
      · cases h
        exact ⟨.interrupted hpool hgap ‹_›, rfl⟩
      · have hlimit := congrArg Prod.fst h
        have hstate := congrArg Prod.snd h
        simp only at hlimit hstate
        exact ⟨.limited hpool hgap hlimit, hstate ▸ rfl⟩

theorem verdict?_eq_none (h : verdict? setup s = (none, s')) :
    s.pool.nodes ≠ [] ∧ setup.isGapClosed s.progress = false ∧ limit? setup s = none ∧
      s'.ledger = s.ledger := by
  unfold verdict? at h
  split at h
  · cases h
  · have hpool : s.pool.nodes ≠ [] := fun hnil ↦ absurd (Pool.isEmpty_iff.mpr hnil) ‹_›
    split at h
    · cases h
    · have hgap := Bool.eq_false_iff.mpr ‹_›
      simp only at h
      split at h
      · cases h
      · have hlimit := congrArg Prod.fst h
        have hstate := congrArg Prod.snd h
        simp only at hlimit hstate
        exact ⟨hpool, hgap, hlimit, hstate ▸ rfl⟩

theorem verdict?_trace {verdict : Option RunState} (h : verdict? setup s = (verdict, s')) :
    s'.trace = s.trace := by
  unfold verdict? at h
  split at h
  · cases h
    rfl
  · split at h
    · cases h
      rfl
    · have hpolled : s' = { s with polls := s.polls + 1 } := by
        simp only at h
        split at h
        · exact (congrArg Prod.snd h).symm
        · exact (congrArg Prod.snd h).symm
      rw [hpolled]

/-! ## Verdicts -/

theorem hasIncumbent_of_isGapClosed (h : setup.isGapClosed s.progress = true) :
    s.progress.hasIncumbent = true := by
  unfold Setup.isGapClosed at h
  split at h
  · exact ((Bool.and_eq_true _ _).mp ‹_›).1
  · cases h

theorem exhausted_eq_resolutionLimit (h : exhausted setup s = .resolutionLimit) :
    s.progress.resolutionNodes ≠ 0 ∧ setup.isGapClosed s.progress = false := by
  unfold exhausted at h
  split at h
  · obtain ⟨hnodes, hgap⟩ := (Bool.and_eq_true _ _).mp ‹_›
    exact ⟨bne_iff_ne.mp hnodes, by simpa using hgap⟩
  · split at h <;> cases h

theorem exhausted_eq_converged (h : exhausted setup s = .converged) :
    s.progress.hasIncumbent = true ∧
      (s.progress.resolutionNodes = 0 ∨ setup.isGapClosed s.progress = true) := by
  unfold exhausted at h
  split at h
  · cases h
  · split at h
    · refine ⟨‹_›, ?_⟩
      by_contra hneither
      simp_all
    · cases h

theorem exhausted_of_isGapClosed (h : setup.isGapClosed s.progress = true) :
    exhausted setup s = .converged := by
  have hinc := hasIncumbent_of_isGapClosed h
  simp [exhausted, h, hinc]

/-- A closed gap needs an incumbent, so nothing was set aside in an infeasible search. -/
theorem exhausted_eq_infeasible (h : exhausted setup s = .infeasible) :
    s.progress.hasIncumbent = false ∧ s.progress.resolutionNodes = 0 := by
  unfold exhausted at h
  split at h
  · cases h
  · split at h
    · cases h
    · have hnone := Bool.eq_false_iff.mpr ‹¬ s.progress.hasIncumbent = true›
      refine ⟨hnone, ?_⟩
      by_contra hnodes
      have hclosed : setup.isGapClosed s.progress = true := by simp_all
      rw [hasIncumbent_of_isGapClosed hclosed] at hnone
      cases hnone

omit [Extended α β] in
/-- Where no limit applies, neither the nodes created nor the iterations are used up. -/
theorem below_limits (h : limit? setup s = none) :
    s.progress.nodesCreated ≤ setup.options.maxNodes ∧
      ∀ limit ∈ setup.options.maxIterations, s.progress.iterations < limit := by
  unfold limit? at h
  split at h
  · cases h
  · split at h
    · cases h
    · split at h
      · cases h
      · refine ⟨Nat.not_lt.mp ‹_›, fun limit hlimit ↦ ?_⟩
        have hany := ‹¬ setup.options.maxIterations.any _ = true›
        rw [hlimit] at hany
        exact Nat.not_le.mp fun hle ↦ hany (decide_eq_true hle)

omit [Extended α β] in
theorem limit?_eq_some (h : limit? setup s = some state) :
    state = .timeLimit ∨ state = .nodeLimit ∨ state = .iterationLimit := by
  unfold limit? at h
  split at h
  · exact Or.inl (Option.some.inj h).symm
  · split at h
    · exact Or.inr (Or.inl (Option.some.inj h).symm)
    · split at h
      · exact Or.inr (Or.inr (Option.some.inj h).symm)
      · cases h

theorem Stops.eq_exhausted (h : Stops setup s state) (hpool : s.pool.nodes = []) :
    state = Search.exhausted setup s := by
  cases h with
  | exhausted _ => rfl
  | gapClosed hopen _ => exact absurd hpool hopen
  | interrupted hopen _ _ => exact absurd hpool hopen
  | limited hopen _ _ => exact absurd hpool hopen

theorem Stops.converged (h : Stops setup s .converged) :
    setup.isGapClosed s.progress = true ∨
      s.pool.nodes = [] ∧ s.progress.hasIncumbent = true ∧ s.progress.resolutionNodes = 0 := by
  generalize hstate : RunState.converged = state at h
  cases h with
  | exhausted hpool =>
      obtain ⟨hinc, hnodes | hgap⟩ := exhausted_eq_converged hstate.symm
      · exact Or.inr ⟨hpool, hinc, hnodes⟩
      · exact Or.inl hgap
  | gapClosed _ hgap => exact Or.inl hgap
  | interrupted _ _ _ => cases hstate
  | limited _ _ hlimit => rcases limit?_eq_some hlimit with rfl | rfl | rfl <;> cases hstate

theorem Stops.infeasible (h : Stops setup s .infeasible) :
    s.pool.nodes = [] ∧ s.progress.hasIncumbent = false ∧ s.progress.resolutionNodes = 0 := by
  generalize hstate : RunState.infeasible = state at h
  cases h with
  | exhausted hpool => exact ⟨hpool, exhausted_eq_infeasible hstate.symm⟩
  | gapClosed _ _ => cases hstate
  | interrupted _ _ _ => cases hstate
  | limited _ _ hlimit => rcases limit?_eq_some hlimit with rfl | rfl | rfl <;> cases hstate

theorem Stops.resolutionLimit (h : Stops setup s .resolutionLimit) :
    s.pool.nodes = [] ∧ setup.isGapClosed s.progress = false := by
  generalize hstate : RunState.resolutionLimit = state at h
  cases h with
  | exhausted hpool => exact ⟨hpool, (exhausted_eq_resolutionLimit hstate.symm).2⟩
  | gapClosed _ _ => cases hstate
  | interrupted _ _ _ => cases hstate
  | limited _ _ hlimit => rcases limit?_eq_some hlimit with rfl | rfl | rfl <;> cases hstate

/-- A search that ends in another state than these has no open nodes left, or a closed gap. -/
theorem Stops.pool_ne_nil (h : Stops setup s state) (hstate : state = .interrupted ∨
    state = .timeLimit ∨ state = .nodeLimit ∨ state = .iterationLimit) : s.pool.nodes ≠ [] := by
  cases h with
  | exhausted _ =>
      unfold Search.exhausted at hstate
      split at hstate
      · simp at hstate
      · split at hstate <;> simp at hstate
  | gapClosed hpool _ => exact hpool
  | interrupted hpool _ _ => exact hpool
  | limited hpool _ _ => exact hpool

/-! ## Turns -/

theorem advance_ledger (h : advance setup s = .ok s') (hpool : s.ledger.pool.nodes ≠ []) :
    ∃ node pool l, s.ledger.pool.pop? = some (node, pool) ∧
      (s.ledger.take s.ledger.progress.elapsed pool).Process setup node l ∧
        s'.ledger = l.updateLowerBound := by
  unfold advance at h
  split at h
  · exact absurd (Pool.pop?_eq_none_iff.mp ‹_›) hpool
  · obtain ⟨s₁, hprocess, h⟩ := bind_eq_ok_iff.mp h
    refine ⟨_, _, s₁.ledger, ‹_›, process_ledger hprocess, ?_⟩
    rw [← ledger_updateLowerBound]
    simp only at h
    split at h <;> cases h <;> rfl

theorem turn_eq_none (h : turn setup s = .ok (none, s')) : s.ledger.Turn setup s'.ledger := by
  unfold turn at h
  split at h
  · cases h
  · obtain ⟨hpool, hgap, hlimit, hledger⟩ := verdict?_eq_none ‹_›
    obtain ⟨s₁, hadvance, h⟩ := bind_eq_ok_iff.mp h
    cases h
    obtain ⟨node, pool, l, hpop, hprocess, hl⟩ := advance_ledger hadvance (by rwa [hledger])
    rw [hledger] at hpop hprocess
    rw [hl]
    exact .mk hgap (below_limits hlimit).1 hpop hprocess

theorem turn_eq_some (h : turn setup s = .ok (some state, s')) :
    Stops setup (tick setup s) state ∧ s'.ledger = (tick setup s).ledger ∧
      s'.trace = s.trace := by
  unfold turn at h
  split at h
  · cases h
    have hverdict := ‹verdict? setup (tick setup s) = _›
    obtain ⟨hstops, hledger⟩ := verdict?_eq_some hverdict
    have htrace : s'.trace = (tick setup s).trace := verdict?_trace hverdict
    exact ⟨hstops, hledger, htrace⟩
  · obtain ⟨s₁, hadvance, h⟩ := bind_eq_ok_iff.mp h
    cases h

/-- What holds at the start and passes from turn to turn holds at every loop head. -/
theorem AtLoopHead.ledger_induction {I : Ledger β p → Prop} (hstart : I (.start setup))
    (hturn : ∀ l l', I l → l.Turn setup l' → I l') (hs : AtLoopHead setup solver s) :
    I s.ledger := by
  induction hs with
  | start => exact hstart
  | next hs h ih => exact hturn _ _ ih (turn_eq_none h)

/-- A property that a search preserves holds of every open node. -/
theorem AtLoopHead.forall_open {P : Node α β p.stored → Prop} (hs : AtLoopHead setup solver s)
    (hP : setup.Preserves P) : ∀ node ∈ s.pool.nodes, P node := by
  refine hs.ledger_induction (I := fun l ↦ ∀ node ∈ l.pool.nodes, P node) ?_ ?_
  · intro node hnode
    rw [List.mem_singleton.mp hnode]
    exact hP.root
  · rintro l _ hl ⟨-, -, hpop, hprocess⟩ n hn
    have hperm := Pool.pop?_perm hpop
    rcases hprocess.mem_pool hn with hn | ⟨bounded, hrefines, hhalf⟩
    · exact hl n (hperm.mem_iff.mpr (List.mem_cons_of_mem _ hn))
    · exact hP.half (hP.refine (hl _ (hperm.mem_iff.mpr List.mem_cons_self)) hrefines) hhalf

theorem AtLoopHead.selection_eq (hs : AtLoopHead setup solver s) :
    s.pool.selection = setup.options.selection := by
  refine hs.ledger_induction (I := fun l ↦ l.pool.selection = setup.options.selection) rfl ?_
  rintro l _ hl ⟨-, -, hpop, hprocess⟩
  obtain ⟨⟨_, _⟩, -, heq⟩ := Option.map_eq_some_iff.mp hpop
  cases heq
  exact hprocess.agrees.selection_eq.trans hl

end Search

/-! ## The number of turns -/

namespace Ledger

variable {setup : Setup α β σ p} {l l' : Ledger β p} {node : Node α β p.stored}

/-- The nodes that were taken and those that are open have all been created. -/
def CountsNodes (l : Ledger β p) : Prop :=
  l.progress.iterations + l.pool.size ≤ l.progress.nodesCreated

theorem BoundAbove.countsNodes (h : l.BoundAbove setup node l') (hl : l.CountsNodes) :
    l'.CountsNodes := by
  cases h with
  | missed => exact hl
  | improved _ _ _ => exact (Nat.add_le_add_left (Pool.size_prune_le _) _).trans hl

theorem Ending.countsNodes (h : l.Ending setup node l') (hl : l.CountsNodes) :
    l'.CountsNodes := by
  cases h with
  | pruned _ => exact hl
  | tooNarrow _ _ => exact hl
  | split _ _ _ _ => exact Nat.add_le_add_right hl 2

theorem Process.countsNodes (h : l.Process setup node l') (hl : l.CountsNodes) :
    l'.CountsNodes := by
  cases h with
  | stale _ => exact hl
  | closed _ _ => exact hl
  | refuted _ _ _ _ => exact hl
  | bounded _ _ _ _ habove hend =>
      refine hend.countsNodes ?_
      rcases habove with rfl | ⟨_, habove⟩
      · exact hl
      · exact habove.countsNodes hl

theorem Turn.countsNodes (h : l.Turn setup l') (hl : l.CountsNodes) : l'.CountsNodes := by
  cases h with
  | @mk time node pool l'' _ _ hpop hprocess =>
      have htake : (l.take time pool).CountsNodes := by
        have hsize := Pool.size_pop? hpop
        unfold CountsNodes at hl ⊢
        simp only [take]
        omega
      exact hprocess.countsNodes htake

theorem Turn.pool_ne_nil (h : l.Turn setup l') : l.pool.nodes ≠ [] := by
  cases h with
  | mk _ _ hpop _ =>
      intro hnil
      rw [Pool.pop?_eq_none_iff.mpr hnil] at hpop
      cases hpop

theorem Turn.iterations_eq (h : l.Turn setup l') :
    l'.progress.iterations = l.progress.iterations + 1 := by
  cases h with
  | mk _ _ _ hprocess => exact hprocess.agrees.iterations_eq

/-- A turn is only taken below the limit on created nodes. -/
theorem Turn.iterations_le (h : l.Turn setup l') (hl : l.CountsNodes) :
    l'.progress.iterations ≤ setup.options.maxNodes := by
  rw [h.iterations_eq]
  cases h with
  | mk _ hnodes hpop _ =>
      have hsize := Pool.size_pop? hpop
      unfold CountsNodes at hl
      omega

theorem start_countsNodes (setup : Setup α β σ p) : (start setup).CountsNodes := by
  simp [CountsNodes, start, Progress.start, Pool.empty, Pool.push, Pool.size]

end Ledger

namespace Search

variable {setup : Setup α β σ p} {solver : σ} {s s' : Search α β σ p} {state : RunState}

theorem AtLoopHead.countsNodes (hs : AtLoopHead setup solver s) : s.ledger.CountsNodes :=
  hs.ledger_induction (Ledger.start_countsNodes setup) fun _ _ hl h ↦ h.countsNodes hl

/-- The turns are not used up before the search ends. -/
theorem turns_eq_ok {count : Nat} (hs : AtLoopHead setup solver s)
    (hcount : setup.options.maxNodes < s.progress.iterations + count)
    (hle : s.progress.iterations ≤ setup.options.maxNodes)
    (h : turns setup count s = .ok (state, s')) :
    ∃ head, AtLoopHead setup solver head ∧ Stops setup (tick setup head) state ∧
      s'.ledger = (tick setup head).ledger ∧ s'.trace = head.trace := by
  -- Along the turns the iterations plus the turns left stay above the limit on created nodes.
  induction count generalizing s with
  | zero => omega
  | succ count ih =>
      obtain ⟨⟨found, s₁⟩, hturn, h⟩ := bind_eq_ok_iff.mp h
      cases found with
      | some state₁ =>
          cases h
          exact ⟨s, hs, turn_eq_some hturn⟩
      | none =>
          have hledger := turn_eq_none hturn
          have hnext := hledger.iterations_eq
          refine ih (.next hs hturn) ?_ (hledger.iterations_le hs.countsNodes) h
          simp only [ledger] at hnext
          omega

/-- A search ends at a loop head with a reason to stop, and the last record is written there. -/
theorem run_eq_finish (h : run setup solver = .ok (state, s')) :
    ∃ head last, AtLoopHead setup solver head ∧ Stops setup (tick setup head) state ∧
      last.ledger = (tick setup head).ledger ∧ last.trace = head.trace ∧
      s' = finish setup state last := by
  obtain ⟨⟨state₁, last⟩, hturns, h⟩ := bind_eq_ok_iff.mp h
  cases h
  have hcount : setup.options.maxNodes <
      (Search.start setup solver).progress.iterations + turnLimit setup := by
    simp only [Search.start, Progress.start, turnLimit]
    omega
  obtain ⟨head, hhead, hstops, hledger, htrace⟩ :=
    turns_eq_ok .start hcount (Nat.zero_le _) hturns
  exact ⟨head, last, hhead, hstops, hledger, htrace, rfl⟩

end Search

end GlobalQcqp
