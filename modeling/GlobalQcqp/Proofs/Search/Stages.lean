import GlobalQcqp.Proofs.Search.Run
/-!
# The states within a turn

The turn from a loop head takes a node, tightens its box, bounds it from below and then from above,
and compares it with the prune threshold in between.  The search is in one state after each of these
steps, and each of them has an equation for the rest of the turn.
-/

namespace GlobalQcqp

section

variable {β π : Type}

/-- Nothing has happened to the incumbent since. -/
structure Progress.KeepsIncumbent (after before : Progress β π) : Prop where
  incumbent_eq : after.incumbent = before.incumbent
  value_eq : after.incumbentValue = before.incumbentValue
  updates_eq : after.incumbentUpdates = before.incumbentUpdates

theorem Progress.KeepsIncumbent.refl (s : Progress β π) : s.KeepsIncumbent s :=
  ⟨rfl, rfl, rfl⟩

theorem Progress.KeepsIncumbent.trans {a b c : Progress β π} (hab : a.KeepsIncumbent b)
    (hbc : b.KeepsIncumbent c) : a.KeepsIncumbent c where
  incumbent_eq := hab.incumbent_eq.trans hbc.incumbent_eq
  value_eq := hab.value_eq.trans hbc.value_eq
  updates_eq := hab.updates_eq.trans hbc.updates_eq

end

variable {α β σ : Type} [Scalar α] [Scalar β] [Extended α β] {p : Problem α}

theorem Setup.pruneThreshold_eq_of_keeps {setup : Setup α β σ p}
    {after before : Progress β (Vector α p.stored)} (h : after.KeepsIncumbent before) :
    setup.pruneThreshold after = setup.pruneThreshold before := by
  have hinc : after.hasIncumbent = before.hasIncumbent := congrArg Option.isSome h.incumbent_eq
  unfold pruneThreshold
  rw [hinc, h.value_eq]

theorem Ledger.Ending.keeps {setup : Setup α β σ p} {l l' : Ledger β p} {node : Node α β p.stored}
    (h : l.Ending setup node l') : l'.progress.KeepsIncumbent l.progress := by
  cases h with
  | pruned _ => exact ⟨rfl, rfl, rfl⟩
  | tooNarrow _ _ => exact ⟨rfl, rfl, rfl⟩
  | split _ _ _ _ => exact ⟨rfl, rfl, rfl⟩

namespace Search

/-- The state once a node is taken. -/
def take (s : Search α β σ p) (pool : Pool α β p.stored) : Search α β σ p :=
  { s with
    pool := pool
    progress := { s.progress with iterations := s.progress.iterations + 1 } }

/-- The state once a node is propagated. -/
def recordTightened (s : Search α β σ p) (r : Propagated α β p.stored σ) : Search α β σ p :=
  (logAll { s with solver := r.solver } r.notices).log (.propagated r.node r.isOpen)

/-- The state once the relaxation of a node is solved. -/
def recordLowered (s : Search α β σ p) (r : Lowered α β p.stored σ) : Search α β σ p :=
  let s := logAll { s with solver := r.solver } r.notices
  let s := { s with progress := { s.progress with lowerSolves := s.progress.lowerSolves + 1 } }
  let s := s.log (.lowered r.node)
  if r.node.status = .failed then
    let s := { s with
      progress := { s.progress with lowerFailures := s.progress.lowerFailures + 1 } }
    s.log (.notice (.unbounded r.node.id))
  else s

/-- The next loop head, once the node taken is dealt with. -/
def conclude (setup : Setup α β σ p) (s : Search α β σ p) : Search α β σ p :=
  let s := s.updateLowerBound
  let interval := setup.options.reportInterval
  if interval != 0 && s.progress.iterations % interval == 0 then s.report setup "" else s

section

omit [Scalar β] [Extended α β]

theorem recordTightened_ledger (s : Search α β σ p) (r : Propagated α β p.stored σ) :
    (s.recordTightened r).ledger = s.ledger :=
  (ledger_log _ _).trans (ledger_logAll _ _)

theorem recordLowered_ledger (s : Search α β σ p) (r : Lowered α β p.stored σ) :
    (s.recordLowered r).ledger = s.ledger.countLower r.node.status := by
  have hledger : (logAll { s with solver := r.solver } r.notices).ledger = s.ledger :=
    ledger_logAll _ _
  rw [← hledger]
  simp only [recordLowered, Ledger.countLower]
  split
  · rfl
  · rfl

end

theorem conclude_ledger (setup : Setup α β σ p) (s : Search α β σ p) :
    (conclude setup s).ledger = s.ledger.updateLowerBound := by
  rw [← ledger_updateLowerBound]
  simp only [conclude]
  split
  · rfl
  · rfl

theorem conclude_keeps (setup : Setup α β σ p) (s : Search α β σ p) :
    (conclude setup s).progress.KeepsIncumbent s.progress := by
  have hprogress := congrArg Ledger.progress (conclude_ledger setup s)
  rw [← ledger_progress, hprogress]
  exact ⟨rfl, rfl, rfl⟩

/-! ## The steps of a turn -/

variable {setup : Setup α β σ p}

theorem advance_eq {s : Search α β σ p} {node : Node α β p.stored} {pool : Pool α β p.stored}
    (hpop : s.pool.pop? = some (node, pool)) :
    advance setup s = (process setup node (s.take pool)).map (conclude setup) := by
  unfold advance
  rw [hpop]
  simp only
  change process setup node (s.take pool) >>= _ = _
  cases process setup node (s.take pool) with
  | error cause => rfl
  | ok s₁ =>
      rw [ok_bind]
      simp only [Except.map, conclude]
      split
      · rfl
      · rfl

theorem processOpen_eq {s : Search α β σ p} {node : Node α β p.stored}
    {c : ConvexProblem α p.size} {r : Lowered α β p.stored σ}
    (hc : p.relaxation? setup.routine (p.restrictBox node.box) = .ok c)
    (hlower : setup.parts.lower node c s.solver = .ok r) :
    processOpen setup node s =
      if r.node.status = .infeasible then .ok (s.recordLowered r).countInfeasible
      else processBounded setup r.node (s.recordLowered r) := by
  simp only [processOpen, hc, hlower, ok_bind, recordLowered]
  cases r.node.status with
  | unsolved => rfl
  | feasible => rfl
  | infeasible => rfl
  | failed => rfl

variable (setup) (s : Search α β σ p)

/-- The turn from `s` takes the node. -/
inductive Takes : Node α β p.stored → Search α β σ p → Prop
  | mk {polled node pool} (hverdict : verdict? setup (tick setup s) = (none, polled))
      (hpop : polled.pool.pop? = some (node, pool)) : Takes node (polled.take pool)

/-- The turn from `s` propagates the node it takes, which is not stale. -/
inductive Tightens : Propagated α β p.stored σ → Search α β σ p → Prop
  | mk {node s₁ r} (htakes : Takes setup s node s₁)
      (hfresh : s₁.isPrunable setup node.priority = false)
      (hr : setup.parts.propagate node s₁.progress s₁.solver = .ok r) :
      Tightens r (s₁.recordTightened r)

/-- The turn from `s` solves the relaxation of the node it takes, which ends up in this form. -/
inductive BoundsBelow : Node α β p.stored → Search α β σ p → Prop
  | mk {r s₂ c lowered} (htightens : Tightens setup s r s₂) (hopen : r.isOpen = true)
      (hc : p.relaxation? setup.routine (p.restrictBox r.node.box) = .ok c)
      (hlower : setup.parts.lower r.node c s₂.solver = .ok lowered) :
      BoundsBelow lowered.node (s₂.recordLowered lowered)

/-- The turn from `s` is to look for a feasible point in the node it takes. -/
structure AsksAbove (node : Node α β p.stored) (s₃ : Search α β σ p) : Prop where
  bounded : BoundsBelow setup s node s₃
  status_ne : node.status ≠ .infeasible
  not_prunable : s₃.isPrunable setup node.bound = false
  due : setup.isUpperDue node s₃.progress = true

/-- The search for a feasible point leads from one state to another. -/
inductive BoundsAbove : Node α β p.stored → Search α β σ p → Search α β σ p → Prop
  | mk {node s₃ s₄} (hasks : AsksAbove setup s node s₃)
      (habove : boundAbove setup node s₃ = .ok s₄) : BoundsAbove node s₃ s₄

/-- The states that the turn from `s` leads through, both loop heads among them. -/
inductive Visits : Search α β σ p → Prop
  | head : Visits s
  | taken {node s₁} (h : Takes setup s node s₁) : Visits s₁
  | tightened {r s₂} (h : Tightens setup s r s₂) : Visits s₂
  | bounded {node s₃} (h : BoundsBelow setup s node s₃) : Visits s₃
  | searched {node s₃ s₄} (h : BoundsAbove setup s node s₃ s₄) : Visits s₄
  | processed {node s₁ s₅} (h : Takes setup s node s₁)
      (hprocess : process setup node s₁ = .ok s₅) : Visits s₅
  | next {s'} (h : turn setup s = .ok (none, s')) : Visits s'

variable {setup s} {s₁ s₂ s₃ s₄ s' t₁ : Search α β σ p} {node node' n : Node α β p.stored}
  {r : Propagated α β p.stored σ}

theorem Takes.turn_eq (h : Takes setup s node s₁) :
    turn setup s = (process setup node s₁).map fun s ↦ (none, conclude setup s) := by
  obtain ⟨hverdict, hpop⟩ := h
  rw [turn, hverdict]
  simp only [advance_eq hpop]
  cases process setup node _ with
  | error cause => rfl
  | ok s₁ => rfl

theorem Tightens.turn_eq (h : Tightens setup s r s₂) (hopen : r.isOpen = true) :
    turn setup s = (processOpen setup r.node s₂).map fun s ↦ (none, conclude setup s) := by
  obtain ⟨htakes, hfresh, hr⟩ := h
  rw [htakes.turn_eq, process, hfresh, if_neg Bool.false_ne_true, hr, ok_bind]
  exact congrArg (Except.map _) (if_pos hopen)

theorem BoundsBelow.turn_eq (h : BoundsBelow setup s node s₃)
    (hstatus : node.status ≠ .infeasible) :
    turn setup s = (processBounded setup node s₃).map fun s ↦ (none, conclude setup s) := by
  obtain ⟨htightens, hopen, hc, hlower⟩ := h
  rw [htightens.turn_eq hopen, processOpen_eq hc hlower, if_neg hstatus]

theorem AsksAbove.turn_eq (h : AsksAbove setup s node s₃) :
    turn setup s = Except.map (fun s ↦ (none, conclude setup s))
      (boundAbove setup node s₃ >>= fun s₄ ↦
        if s₄.isPrunable setup node.bound then .ok (s₄.countPruned 1)
        else branch setup node s₄) := by
  rw [h.bounded.turn_eq h.status_ne, processBounded, h.not_prunable, if_neg Bool.false_ne_true,
    h.due, if_pos rfl]
  rfl

theorem BoundsAbove.turn_eq (h : BoundsAbove setup s node s₃ s₄) :
    turn setup s = Except.map (fun s ↦ (none, conclude setup s))
      (if s₄.isPrunable setup node.bound then .ok (s₄.countPruned 1)
      else branch setup node s₄) := by
  obtain ⟨hasks, habove⟩ := h
  rw [hasks.turn_eq, habove, ok_bind]

/-! ## What the steps change -/

theorem Takes.exists_pool (h : Takes setup s node s₁) : ∃ pool,
    s.pool.pop? = some (node, pool) ∧
      s₁.ledger = s.ledger.take (setup.clock s.readings) pool := by
  obtain ⟨hverdict, hpop⟩ := h
  have hledger := (verdict?_eq_none hverdict).2.2.2
  have hpool := congrArg Ledger.pool hledger
  have hprogress := congrArg Ledger.progress hledger
  simp only [ledger_pool, ledger_progress] at hpool hprogress
  refine ⟨_, hpool ▸ hpop, ?_⟩
  simp only [ledger, take, Ledger.take, hprogress]
  rfl

theorem Takes.mem_pool (h : Takes setup s node s₁) : node ∈ s.pool.nodes := by
  obtain ⟨pool, hpop, -⟩ := h.exists_pool
  exact (Pool.pop?_perm hpop).mem_iff.mpr List.mem_cons_self

theorem Takes.mem_of_mem_pool (h : Takes setup s node s₁) (hn : n ∈ s₁.pool.nodes) :
    n ∈ s.pool.nodes := by
  obtain ⟨pool, hpop, hledger⟩ := h.exists_pool
  have hpool : s₁.pool = pool := congrArg Ledger.pool hledger
  rw [hpool] at hn
  exact (Pool.pop?_perm hpop).mem_iff.mpr (List.mem_cons_of_mem node hn)

/-- A turn takes one node at most. -/
theorem Takes.node_eq (h : Takes setup s node s₁) (h' : Takes setup s node' t₁) : node = node' := by
  obtain ⟨_, hpop, -⟩ := h.exists_pool
  obtain ⟨_, hpop', -⟩ := h'.exists_pool
  exact congrArg Prod.fst (Option.some.inj (hpop.symm.trans hpop'))

theorem Tightens.exists_takes (h : Tightens setup s r s₂) :
    ∃ taken s₁, Takes setup s taken s₁ ∧ s₁.ledger.Tightens setup taken r := by
  obtain ⟨htakes, hfresh, hr⟩ := h
  exact ⟨_, _, htakes, of_decide_eq_false hfresh, _, hr⟩

theorem BoundsBelow.exists_takes (h : BoundsBelow setup s node s₃) :
    ∃ taken s₁, Takes setup s taken s₁ := by
  obtain ⟨htightens, -, -, -⟩ := h
  obtain ⟨taken, s₁, htakes, -⟩ := htightens.exists_takes
  exact ⟨taken, s₁, htakes⟩

theorem BoundsAbove.boundsBelow (h : BoundsAbove setup s node s₃ s₄) :
    BoundsBelow setup s node s₃ := by
  obtain ⟨hasks, -⟩ := h
  exact hasks.bounded

theorem Takes.keeps (h : Takes setup s node s₁) : s₁.progress.KeepsIncumbent s.progress := by
  obtain ⟨pool, -, hledger⟩ := h.exists_pool
  rw [← ledger_progress, hledger]
  exact ⟨rfl, rfl, rfl⟩

theorem Tightens.keeps (h : Tightens setup s r s₂) : s₂.progress.KeepsIncumbent s.progress := by
  obtain ⟨htakes, -, -⟩ := h
  rw [← ledger_progress, recordTightened_ledger]
  exact htakes.keeps

theorem BoundsBelow.keeps (h : BoundsBelow setup s node s₃) :
    s₃.progress.KeepsIncumbent s.progress := by
  obtain ⟨htightens, -, -, -⟩ := h
  rw [← ledger_progress, recordLowered_ledger]
  exact ⟨htightens.keeps.incumbent_eq, htightens.keeps.value_eq, htightens.keeps.updates_eq⟩

/-- A node that is bounded and not refuted comes from an open one. -/
theorem BoundsBelow.exists_refines (h : BoundsBelow setup s node s₃)
    (hstatus : node.status ≠ .infeasible) :
    ∃ taken ∈ s.pool.nodes, ∃ l : Ledger β p, l.Refines setup taken node := by
  obtain ⟨htightens, hopen, hc, hlower⟩ := h
  obtain ⟨taken, s₁, htakes, hr⟩ := htightens.exists_takes
  exact ⟨taken, htakes.mem_pool, s₁.ledger, _, hr, hopen, ⟨_, _, _, hc, hlower, rfl⟩, hstatus⟩

/-- A turn to another loop head takes a node and processes it. -/
theorem exists_takes (h : turn setup s = .ok (none, s')) : ∃ node s₁ s₅,
    Takes setup s node s₁ ∧ process setup node s₁ = .ok s₅ ∧ s' = conclude setup s₅ := by
  cases hverdict : verdict? setup (tick setup s) with
  | mk verdict polled =>
      cases verdict with
      | some state =>
          rw [turn, hverdict] at h
          cases h
      | none =>
          have hpool : polled.pool.nodes ≠ [] := by
            have hledger := (verdict?_eq_none hverdict).2.2.2
            have hnodes := (verdict?_eq_none hverdict).1
            rwa [← ledger_pool, hledger]
          cases hpop : polled.pool.pop? with
          | none => exact absurd (Pool.pop?_eq_none_iff.mp hpop) hpool
          | some found =>
              obtain ⟨node, pool⟩ := found
              have htakes : Takes setup s node (polled.take pool) := .mk hverdict hpop
              rw [htakes.turn_eq] at h
              cases hprocess : process setup node (polled.take pool) with
              | error cause =>
                  rw [hprocess] at h
                  cases h
              | ok s₅ =>
                  rw [hprocess] at h
                  cases h
                  exact ⟨node, _, s₅, htakes, hprocess, rfl⟩

end Search

end GlobalQcqp
