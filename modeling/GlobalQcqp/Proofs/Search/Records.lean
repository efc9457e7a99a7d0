import GlobalQcqp.Proofs.Exact
import GlobalQcqp.Proofs.Search.Run
/-!
# The records of a search

A record shows the bounds of the ledger it is written for.  A node writes at most one record, where
it improves the incumbent, and that is before the lower bound is updated.  A turn writes at most one
more, and the end of a search the last one.
-/

namespace GlobalQcqp

variable {σ : Type} {p : Problem ℝ}

/-- The record shows the bounds of the ledger, and no more open nodes than it has. -/
structure Record.Shows (r : Record EReal) (l : Ledger EReal p) : Prop where
  lowerBound_eq : r.lowerBound = l.progress.lowerBound
  upperBound_eq : r.upperBound = l.progress.incumbentValue
  gap_eq : r.gap = l.progress.absoluteGap
  openNodes_le : ∃ count : ℕ, r.openNodes = count ∧ count ≤ l.pool.size

/-- The record that an entry is, if it is one. -/
def Entry.record? {α β : Type} {k n : Nat} : Entry α β k n → Option (Record β)
  | .record r => some r
  | _ => none

namespace Search

/-! ## Which steps write records -/

section Log

variable {α β σ : Type} [Scalar α] {p : Problem α} (s : Search α β σ p)

theorem records_log_of {e : Entry α β p.stored p.size} (he : e.record? = none) :
    (s.log e).records = s.records := by
  cases e with
  | record r => cases he
  | notice _ => simp [log, records]
  | propagated _ _ => simp [log, records]
  | lowered _ => simp [log, records]
  | found _ _ => simp [log, records]
  | missed _ => simp [log, records]

theorem records_logAll (notices : List (Notice β)) : (s.logAll notices).records = s.records := by
  induction notices generalizing s with
  | nil => rfl
  | cons n notices ih => exact (ih (s.log (.notice n))).trans (s.records_log_of rfl)

theorem records_log_record (r : Record β) : (s.log (.record r)).records = s.records ++ [r] := by
  simp [log, records]

end Log

variable {setup : Setup ℝ EReal σ p} {node : Node ℝ EReal p.stored} {s s₁ s' : Search ℝ EReal σ p}

/-- At most one record is added, which shows the bounds that are reached. -/
inductive Reports (s s' : Search ℝ EReal σ p) : Prop
  | silent (h : s'.records = s.records)
  | shown {r : Record EReal} (h : s'.records = s.records ++ [r]) (hr : r.Shows s'.ledger)

/-- No record is added, and one that shows the bounds goes on doing so. -/
structure Keeps (s s' : Search ℝ EReal σ p) : Prop where
  records_eq : s'.records = s.records
  shows_of : ∀ r : Record EReal, r.Shows s.ledger → r.Shows s'.ledger

theorem Reports.keeps (h : s.Reports s₁) (hkeeps : s₁.Keeps s') : s.Reports s' := by
  cases h with
  | silent h => exact .silent (hkeeps.records_eq.trans h)
  | shown h hr => exact .shown (hkeeps.records_eq.trans h) (hkeeps.shows_of _ hr)

theorem Reports.of_records_eq (h : s₁.Reports s') (hrecords : s₁.records = s.records) :
    s.Reports s' := by
  cases h with
  | silent h => exact .silent (h.trans hrecords)
  | shown h hr => exact .shown (hrecords ▸ h) hr

theorem report_reports (marker : String) : s.Reports (s.report setup marker) := by
  refine .shown (records_log_record s _) ⟨rfl, rfl, rfl, s.pool.size, rfl, le_rfl⟩

theorem countPruned_keeps (count : ℕ) : s.Keeps (s.countPruned count) :=
  ⟨rfl, fun _ hr ↦ ⟨hr.lowerBound_eq, hr.upperBound_eq, hr.gap_eq, hr.openNodes_le⟩⟩

theorem improve_reports (id : Int) (c : Candidate ℝ p.size) (stored : Vector ℝ p.stored) :
    s.Reports (improve setup id c stored s) := by
  by_cases hlt : (ofNumber c.value : EReal) < s.progress.incumbentValue
  · have hoffer : s.progress.offer (ofNumber c.value) (some stored) = ({ s.progress with
        incumbentValue := ofNumber c.value
        incumbent := some stored
        incumbentUpdates := s.progress.incumbentUpdates + 1 }, .accepted) := if_pos hlt
    simp only [improve, hoffer, if_true]
    exact (report_reports "*").of_records_eq (records_log_of _ rfl)
  · have hoffer : s.progress.offer (ofNumber c.value) (some stored) = (s.progress, .rejected) :=
      if_neg hlt
    rw [improve, hoffer]
    exact .silent rfl

theorem boundAbove_reports (h : boundAbove setup node s = .ok s') : s.Reports s' := by
  have hcount (notices : List (Notice EReal)) (u : σ) : (logAll { s with
      solver := u
      progress := { s.progress with upperSolves := s.progress.upperSolves + 1 } } notices).records =
        s.records :=
    records_logAll _ notices
  simp only [boundAbove] at h
  split at h
  · cases h
  · cases h
    refine .silent ?_
    rw [records_log_of _ rfl, records_log_of _ rfl, hcount]
  · obtain ⟨stored, -, h⟩ := bind_eq_ok_iff.mp h
    cases h
    refine (improve_reports _ _ _).of_records_eq ?_
    rw [records_log_of _ rfl, hcount]

theorem branch_keeps (h : branch setup node s = .ok s') : s.Keeps s' := by
  simp only [branch] at h
  split at h
  · cases h
  · cases h
    exact ⟨rfl, fun _ hr ↦ ⟨hr.lowerBound_eq, hr.upperBound_eq, hr.gap_eq, hr.openNodes_le⟩⟩
  · split at h
    · cases h
    · split at h
      · cases h
      · cases h
        refine ⟨rfl, fun r hr ↦ ⟨hr.lowerBound_eq, hr.upperBound_eq, hr.gap_eq, ?_⟩⟩
        obtain ⟨count, hcount, hle⟩ := hr.openNodes_le
        exact ⟨count, hcount, hle.trans (Nat.le_add_right s.pool.size 2)⟩

theorem processBounded_reports (h : processBounded setup node s = .ok s') : s.Reports s' := by
  unfold processBounded at h
  split at h
  · cases h
    exact .silent rfl
  · split at h
    · obtain ⟨s₁, habove, h⟩ := bind_eq_ok_iff.mp h
      have hreports := boundAbove_reports habove
      split at h
      · cases h
        exact hreports.keeps (countPruned_keeps 1)
      · exact hreports.keeps (branch_keeps h)
    · exact .silent (branch_keeps h).records_eq

theorem processOpen_reports (h : processOpen setup node s = .ok s') : s.Reports s' := by
  obtain ⟨c, -, h⟩ := bind_eq_ok_iff.mp h
  obtain ⟨lowered, -, h⟩ := bind_eq_ok_iff.mp h
  have hlog : (logAll { s with solver := lowered.solver } lowered.notices).records = s.records :=
    records_logAll _ _
  simp only at h
  generalize logAll { s with solver := lowered.solver } lowered.notices = s₁ at h hlog
  have hlowered (progress : Progress EReal (Vector ℝ p.stored)) :
      (log { s₁ with progress := progress } (.lowered lowered.node)).records = s.records :=
    (records_log_of _ rfl).trans hlog
  split at h
  · cases h
    exact .silent (hlowered _)
  · refine (processBounded_reports h).of_records_eq ?_
    exact (records_log_of _ rfl).trans (hlowered _)
  · exact (processBounded_reports h).of_records_eq (hlowered _)

/-- A node writes at most one record, where it improves the incumbent. -/
theorem process_reports (h : process setup node s = .ok s') : s.Reports s' := by
  unfold process at h
  split at h
  · cases h
    exact .silent rfl
  · obtain ⟨r, -, h⟩ := bind_eq_ok_iff.mp h
    have hlog : ((logAll { s with solver := r.solver } r.notices).log
        (.propagated r.node r.isOpen)).records = s.records :=
      (records_log_of _ rfl).trans (records_logAll _ _)
    split at h
    · exact (processOpen_reports h).of_records_eq hlog
    · cases h
      exact .silent hlog

theorem records_updateLowerBound (s : Search ℝ EReal σ p) :
    s.updateLowerBound.records = s.records := by
  unfold updateLowerBound
  simp only
  split
  · rfl
  · rfl

/-- A turn processes the node it takes, updates the lower bound, and then writes a record if one is
due. -/
theorem exists_process_of_turn (h : turn setup s = .ok (none, s')) :
    ∃ time node pool s₁ s₂, s.pool.pop? = some (node, pool) ∧ s₁.records = s.records ∧
      s₁.ledger = s.ledger.take time pool ∧ process setup node s₁ = .ok s₂ ∧
      s'.ledger = s₂.ledger.updateLowerBound ∧ s₂.updateLowerBound.Reports s' := by
  unfold turn at h
  split at h
  · cases h
  · rename_i polled hverdict
    have hledger : polled.ledger = (tick setup s).ledger := (verdict?_eq_none hverdict).2.2.2
    have htrace : polled.trace = (tick setup s).trace := verdict?_trace hverdict
    have hrecords : polled.records = s.records :=
      congrArg (fun trace ↦ List.filterMap _ (Array.toList trace)) htrace
    have hpool : polled.pool = s.pool := congrArg Ledger.pool hledger
    have hprogress : polled.progress = { s.progress with elapsed := setup.clock s.readings } :=
      congrArg Ledger.progress hledger
    obtain ⟨s₃, hadvance, h⟩ := bind_eq_ok_iff.mp h
    cases h
    unfold advance at hadvance
    rw [hpool] at hadvance
    split at hadvance
    · have hempty := Pool.pop?_eq_none_iff.mp ‹s.pool.pop? = none›
      exact absurd hempty (verdict?_eq_none hverdict).1
    · rename_i node pool hpop
      obtain ⟨s₂, hprocess, hadvance⟩ := bind_eq_ok_iff.mp hadvance
      refine ⟨setup.clock s.readings, node, pool, _, s₂, hpop, ?_, ?_, hprocess, ?_⟩
      · exact hrecords
      · rw [hprogress]
        rfl
      · rw [← ledger_updateLowerBound]
        simp only at hadvance
        split at hadvance
        · cases hadvance
          exact ⟨rfl, report_reports ""⟩
        · cases hadvance
          exact ⟨rfl, .silent rfl⟩

/-- The last record shows the bounds the search ended with. -/
theorem exists_finish_record (setup : Setup ℝ EReal σ p) (state : RunState)
    (s : Search ℝ EReal σ p) :
    ∃ r : Record EReal, (finish setup state s).records = s.records ++ [r] ∧ r.Shows s.ledger := by
  have hlast : (finish setup state s).records = (tick setup s).records ++ [_] :=
    (records_log_of _ rfl).trans (records_log_record (tick setup s) _)
  exact ⟨_, hlast, ⟨rfl, rfl, rfl, s.pool.size, rfl, le_rfl⟩⟩

end Search

end GlobalQcqp
