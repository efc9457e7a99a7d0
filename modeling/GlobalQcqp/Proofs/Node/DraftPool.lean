import Mathlib.Data.List.Induction
import GlobalQcqp.Node.Draft.Pool
import GlobalQcqp.Proofs.Node.Draft
import GlobalQcqp.Proofs.Node.HeapPool
/-!
# A pool of drafts is an ordered multiset

As long as every draft that is pushed has numbers, no operation of a pool fails, and its answers
depend on the drafts in it alone, not on how the heap keeps them.  What is in the pool is what was
pushed and has neither been popped nor pruned.
-/

namespace GlobalQcqp

open Heap (OrderedFrom Decides levels)

namespace NodeDraft

variable {heap : Array NodeDraft}

theorem decides_isBefore (h : ∀ d ∈ heap, d.HasNumbers) : Decides ranking.isBefore bestKey heap :=
  fun a ha b hb ↦ isBefore_eq (h a ha) (h b hb)

theorem decides_isDeeper (h : ∀ d ∈ heap, d.HasNumbers) :
    Decides ranking.isDeeper deepestKey heap :=
  fun a ha b hb ↦ isDeeper_eq (h a ha) (h b hb)

end NodeDraft

namespace DraftPool

variable {p : DraftPool} {heap : Array NodeDraft} {d : NodeDraft}

/-! ## One operation -/

structure InOrder (p : DraftPool) : Prop where
  numbers : ∀ d ∈ p.heap, d.HasNumbers
  ordered : OrderedFrom 0 (levels NodeDraft.bestKey p.heap)

theorem InOrder.ranked (hp : InOrder p) :
    HeapPool.InOrder NodeDraft.ranking NodeDraft.bestKey NodeDraft.deepestKey p :=
  ⟨NodeDraft.decides_isBefore hp.numbers, NodeDraft.decides_isDeeper hp.numbers, hp.ordered⟩

theorem inOrder_empty (selection : NodeSelection) (interval : Int) :
    InOrder (empty selection interval) where
  numbers := by simp [empty, HeapPool.empty]
  ordered k _ _ := by simp [empty, HeapPool.empty, levels]

theorem InOrder.push (hp : InOrder p) (hd : d.HasNumbers) :
    ∃ out, p.push d = (.ok (), { p with heap := out }) ∧ out.toList.Perm (d :: p.heap.toList) ∧
      InOrder { p with heap := out } := by
  have hnumbers : ∀ e ∈ p.heap.push d, e.HasNumbers := by
    intro e he
    rcases Array.mem_push.mp he with he | rfl
    · exact hp.numbers e he
    · exact hd
  obtain ⟨out, hout, hperm, hranked⟩ := hp.ranked.push (NodeDraft.decides_isBefore hnumbers)
    (NodeDraft.decides_isDeeper hnumbers)
  refine ⟨out, hout, hperm, fun e he ↦ ?_, hranked.ordered⟩
  rcases List.mem_cons.mp (hperm.mem_iff.mp (Array.mem_toList_iff.mpr he)) with rfl | he
  · exact hd
  · exact hp.numbers e (Array.mem_toList_iff.mp he)

theorem InOrder.prune (hp : InOrder p) (t : Float) :
    ∃ out, p.prune (.real t) =
        (.ok (p.heap.toList.filter fun d ↦ !decide (d.value < t)).length, { p with heap := out }) ∧
      out.toList.Perm (p.heap.toList.filter fun d ↦ decide (d.value < t)) ∧
      InOrder { p with heap := out } := by
  obtain ⟨out, hout, hperm, hranked⟩ :=
    hp.ranked.prune fun d hd ↦ (hp.numbers d hd).isLess_real t
  refine ⟨out, hout, hperm, fun e he ↦ hp.numbers e ?_, hranked.ordered⟩
  have hkept := hperm.mem_iff.mp (Array.mem_toList_iff.mpr he)
  exact Array.mem_toList_iff.mp (List.mem_of_mem_filter hkept)

theorem InOrder.minBound (hp : InOrder p) (hne : p.heap ≠ #[]) :
    ∃ d ∈ p.heap, p.minBound = .real d.value ∧ ∀ e ∈ p.heap, d.value ≤ e.value := by
  obtain ⟨d, hmem, hd, hleast⟩ := hp.ranked.exists_root hne
  refine ⟨d, hmem, ?_, fun e he ↦ (hp.numbers d hmem).value_le (hp.numbers e he) (hleast e he)⟩
  rw [DraftPool.minBound, hd, Option.elim_some, (hp.numbers d hmem).priority_eq]

def Leads (p : DraftPool) (a b : NodeDraft) : Prop :=
  if p.picksBest then a.LeadsBest b else a.LeadsDeepest b

theorem number_ne_of_perm {out : Array NodeDraft} {e : NodeDraft}
    (hdistinct : (heap.toList.map NodeDraft.number).Nodup)
    (hperm : heap.toList.Perm (d :: out.toList)) (he : e ∈ out) : d.number ≠ e.number := by
  have hnodup := (hperm.map NodeDraft.number).nodup_iff.mp hdistinct
  intro heq
  apply (List.nodup_cons.mp hnodup).1
  rw [heq]
  exact List.mem_map_of_mem (Array.mem_toList_iff.mpr he)

theorem InOrder.pop (hp : InOrder p) (hne : p.heap ≠ #[])
    (hdistinct : (p.heap.toList.map NodeDraft.number).Nodup) :
    ∃ d out, p.pop = (.ok (some d), { p with heap := out, pops := p.pops + 1 }) ∧
      p.heap.toList.Perm (d :: out.toList) ∧ (∀ e ∈ out, Leads p d e) ∧
      InOrder { p with heap := out, pops := p.pops + 1 } := by
  obtain ⟨d, out, hpop, hperm, hleast, hranked⟩ := hp.ranked.pop hne
  have hmem : ∀ e ∈ out, e ∈ p.heap := fun e ↦ Heap.mem_of_perm_cons hperm
  refine ⟨d, out, hpop, hperm, fun e he ↦ ?_,
    ⟨fun e he ↦ hp.numbers e (hmem e he), hranked.ordered⟩⟩
  have hnumber : d.number ≠ e.number := number_ne_of_perm hdistinct hperm he
  have hle := hleast e (hmem e he)
  unfold Leads
  split at hle
  · rw [if_pos ‹_›]
    have hd : d ∈ p.heap := Array.mem_toList_iff.mp (hperm.mem_iff.mpr List.mem_cons_self)
    exact (hp.numbers d hd).leadsBest (hp.numbers e (hmem e he)) hnumber hle
  · rw [if_neg ‹_›]
    exact NodeDraft.leadsDeepest_of_le hnumber hle

theorem pop_of_empty (he : p.heap = #[]) : p.pop = (.ok none, p) :=
  HeapPool.pop_of_empty he

/-! ## Sequences of operations -/

inductive Call where
  | push (d : NodeDraft)
  | pop
  | prune (threshold : Float)

def pushes : List Call → List NodeDraft :=
  List.filterMap fun
    | .push d => some d
    | _ => none

@[simp] theorem pushes_append (calls more : List Call) :
    pushes (calls ++ more) = pushes calls ++ pushes more :=
  List.filterMap_append

@[simp] theorem pushes_push (d : NodeDraft) : pushes [.push d] = [d] :=
  rfl

@[simp] theorem pushes_pop : pushes [.pop] = [] :=
  rfl

@[simp] theorem pushes_prune (t : Float) : pushes [.prune t] = [] :=
  rfl

/-- The drafts pushed have numbers, and no two the same. -/
structure Numbered (calls : List Call) : Prop where
  numbers : ∀ d ∈ pushes calls, d.HasNumbers
  distinct : ((pushes calls).map NodeDraft.number).Nodup

theorem Numbered.of_append {calls more : List Call} (h : Numbered (calls ++ more)) :
    Numbered calls := by
  obtain ⟨hnumbers, hdistinct⟩ := h
  rw [pushes_append] at hnumbers hdistinct
  rw [List.map_append] at hdistinct
  exact ⟨fun d hd ↦ hnumbers d (List.mem_append_left _ hd), (List.nodup_append.mp hdistinct).1⟩

theorem Numbered.hasNumbers {calls : List Call} {d : NodeDraft}
    (h : Numbered (calls ++ [.push d])) : d.HasNumbers := by
  apply h.numbers
  simp

/-- A pool with the drafts that have left it. -/
structure Account where
  pool : DraftPool
  popped : List NodeDraft
  pruned : List NodeDraft

namespace Account

def next (a : Account) : Call → Account
  | .push d => { a with pool := (a.pool.push d).2 }
  | .pop =>
    match a.pool.pop with
    | (.ok (some d), pool) => { a with pool, popped := d :: a.popped }
    | (_, pool) => { a with pool }
  | .prune t =>
    { a with
      pool := (a.pool.prune (.real t)).2
      pruned := (a.pool.heap.toList.filter fun d ↦ !decide (d.value < t)) ++ a.pruned }

def after (selection : NodeSelection) (interval : Int) (calls : List Call) : Account :=
  calls.foldl next ⟨.empty selection interval, [], []⟩

@[simp] theorem after_append (selection : NodeSelection) (interval : Int) (calls : List Call)
    (call : Call) :
    after selection interval (calls ++ [call]) = (after selection interval calls).next call := by
  simp [after]

structure Holds (a : Account) (selection : NodeSelection) (interval : Int)
    (pushed : List NodeDraft) : Prop where
  inOrder : a.pool.InOrder
  contents : (a.pool.heap.toList ++ (a.popped ++ a.pruned)).Perm pushed
  pops_eq : a.pool.pops = a.popped.length
  selection_eq : a.pool.selection = selection
  interval_eq : a.pool.interval = (max 1 interval).toNat

variable {a : Account} {selection : NodeSelection} {interval : Int} {pushed : List NodeDraft}

theorem Holds.nodup (h : a.Holds selection interval pushed)
    (hdistinct : (pushed.map NodeDraft.number).Nodup) :
    (a.pool.heap.toList.map NodeDraft.number).Nodup := by
  have hall := (h.contents.map NodeDraft.number).nodup_iff.mpr hdistinct
  rw [List.map_append] at hall
  exact (List.nodup_append.mp hall).1

theorem Holds.push {d : NodeDraft} (h : a.Holds selection interval pushed) (hd : d.HasNumbers) :
    (a.next (.push d)).Holds selection interval (pushed ++ [d]) := by
  obtain ⟨out, hpush, hperm, hout⟩ := h.inOrder.push hd
  have hnext : a.next (.push d) = { a with pool := { a.pool with heap := out } } := by
    rw [next, hpush]
  rw [hnext]
  refine ⟨hout, ?_, h.pops_eq, h.selection_eq, h.interval_eq⟩
  exact (hperm.append_right _).trans
    ((h.contents.cons d).trans (List.perm_append_singleton d pushed).symm)

theorem Holds.pop (h : a.Holds selection interval pushed)
    (hdistinct : (pushed.map NodeDraft.number).Nodup) :
    (a.next .pop).Holds selection interval pushed := by
  by_cases he : a.pool.heap = #[]
  · have hnext : a.next .pop = a := by
      rw [next, pop_of_empty he]
    rw [hnext]
    exact h
  · obtain ⟨d, out, hpop, hperm, -, hout⟩ := h.inOrder.pop he (h.nodup hdistinct)
    have hnext : a.next .pop =
        ⟨{ a.pool with heap := out, pops := a.pool.pops + 1 }, d :: a.popped, a.pruned⟩ := by
      rw [next, hpop]
    rw [hnext]
    refine ⟨hout, ?_, ?_, h.selection_eq, h.interval_eq⟩
    · calc
        out.toList ++ (d :: a.popped ++ a.pruned)
        _ = out.toList ++ d :: (a.popped ++ a.pruned) := rfl
        List.Perm _ (d :: (out.toList ++ (a.popped ++ a.pruned))) := List.perm_middle
        List.Perm _ (a.pool.heap.toList ++ (a.popped ++ a.pruned)) :=
          (hperm.append_right _).symm
        List.Perm _ pushed := h.contents
    · simp [h.pops_eq]

theorem Holds.prune (h : a.Holds selection interval pushed) (t : Float) :
    (a.next (.prune t)).Holds selection interval pushed := by
  obtain ⟨out, hprune, hperm, hout⟩ := h.inOrder.prune t
  have hnext : a.next (.prune t) = ⟨{ a.pool with heap := out }, a.popped,
      (a.pool.heap.toList.filter fun d ↦ !decide (d.value < t)) ++ a.pruned⟩ := by
    rw [next, hprune]
  rw [hnext]
  refine ⟨hout, ?_, h.pops_eq, h.selection_eq, h.interval_eq⟩
  have hsplit := List.filter_append_perm (fun d ↦ decide (d.value < t)) a.pool.heap.toList
  calc
    out.toList ++ (a.popped ++ (_ ++ a.pruned))
    List.Perm _ (_ ++ (_ ++ (a.popped ++ a.pruned))) :=
      hperm.append (List.perm_append_comm_assoc _ _ _)
    _ = (_ ++ _) ++ (a.popped ++ a.pruned) := (List.append_assoc _ _ _).symm
    List.Perm _ (a.pool.heap.toList ++ (a.popped ++ a.pruned)) := hsplit.append_right _
    List.Perm _ pushed := h.contents

theorem after_holds (selection : NodeSelection) (interval : Int) {calls : List Call}
    (hcalls : Numbered calls) :
    (after selection interval calls).Holds selection interval (pushes calls) := by
  induction calls using List.reverseRecOn with
  | nil => exact ⟨inOrder_empty selection interval, .refl _, rfl, rfl, rfl⟩
  | append_singleton calls call ih =>
      have h := ih hcalls.of_append
      rw [after_append, pushes_append]
      cases call with
      | push d => exact h.push hcalls.hasNumbers
      | pop =>
          rw [pushes_pop, List.append_nil]
          exact h.pop hcalls.of_append.distinct
      | prune t =>
          rw [pushes_prune, List.append_nil]
          exact h.prune t

end Account

end DraftPool

/-! ## The pool as a multiset -/

/-- Which of two drafts is picked first under a policy, after so many picks. -/
def NodeSelection.Leads (selection : NodeSelection) (interval : Int) (pops : ℕ)
    (a b : NodeDraft) : Prop :=
  match selection with
  | .bestFirst => a.LeadsBest b
  | .depthFirst => a.LeadsDeepest b
  | .hybrid => if max 1 interval ∣ (pops : ℤ) then a.LeadsBest b else a.LeadsDeepest b

namespace DraftPool.Account

variable {a : Account} {selection : NodeSelection} {interval : Int} {pushed : List NodeDraft}

theorem Holds.leads_iff (h : a.Holds selection interval pushed) {d e : NodeDraft} :
    a.pool.Leads d e ↔ selection.Leads interval a.popped.length d e := by
  have hinterval : (a.pool.interval : ℤ) = max 1 interval := by
    rw [h.interval_eq]
    omega
  rw [DraftPool.Leads, HeapPool.picksBest, h.selection_eq]
  cases selection with
  | bestFirst => simp [NodeSelection.Leads]
  | depthFirst => simp [NodeSelection.Leads]
  | hybrid =>
      have hpicks : (a.pool.pops % a.pool.interval == 0) = true ↔
          max 1 interval ∣ (a.popped.length : ℤ) := by
        rw [beq_iff_eq, ← Nat.dvd_iff_mod_eq_zero, ← hinterval, Int.natCast_dvd_natCast, h.pops_eq]
      simp only [hpicks, NodeSelection.Leads]

/-- What the pool of an account holds and answers. -/
structure Answers (a : Account) (selection : NodeSelection) (interval : Int)
    (pushed : List NodeDraft) : Prop where
  contents : (a.pool.heap.toList ++ (a.popped ++ a.pruned)).Perm pushed
  push : ∀ d, d.HasNumbers → (a.pool.push d).1 = .ok ()
  minBound_of_empty : a.pool.heap = #[] → a.pool.minBound = .real posInf
  minBound : a.pool.heap ≠ #[] → ∃ d ∈ a.pool.heap, a.pool.minBound = .real d.value ∧
    ∀ e ∈ a.pool.heap, d.value ≤ e.value
  prune : ∀ t : Float, ∃ kept, a.pool.prune (.real t) =
      (.ok (a.pool.heap.toList.filter fun d ↦ !decide (d.value < t)).length,
        { a.pool with heap := kept }) ∧
    kept.toList.Perm (a.pool.heap.toList.filter fun d ↦ decide (d.value < t))
  not_lt_iff : ∀ t : Float, Scalar.isUndefined t = false →
    ∀ d ∈ a.pool.heap, ¬d.value < t ↔ t ≤ d.value
  pop_of_empty : a.pool.heap = #[] → a.pool.pop = (.ok none, a.pool)
  pop : a.pool.heap ≠ #[] → ∃ d rest, a.pool.pop =
      (.ok (some d), { a.pool with heap := rest, pops := a.pool.pops + 1 }) ∧
    a.pool.heap.toList.Perm (d :: rest.toList) ∧
    ∀ e ∈ rest, selection.Leads interval a.popped.length d e

/-- After any operations on drafts with numbers the pool answers as a multiset of the drafts that
are in it. -/
theorem after_answers (selection : NodeSelection) (interval : Int) {calls : List Call}
    (hcalls : Numbered calls) :
    (after selection interval calls).Answers selection interval (pushes calls) := by
  have h := after_holds selection interval hcalls
  refine ⟨h.contents, fun d hd ↦ ?_, fun he ↦ ?_, h.inOrder.minBound, fun t ↦ ?_,
    fun t ht d hd ↦ ?_, pop_of_empty, fun hne ↦ ?_⟩
  · obtain ⟨out, hpush, -⟩ := h.inOrder.push hd
    rw [hpush]
  · rw [DraftPool.minBound, he]
    rfl
  · obtain ⟨out, hprune, hperm, -⟩ := h.inOrder.prune t
    exact ⟨out, hprune, hperm⟩
  · have hvalue := (h.inOrder.numbers d hd).isUndefined_value
    rw [MachineRank.lt_iff hvalue ht, MachineRank.le_iff ht hvalue, not_lt]
  · obtain ⟨d, out, hpop, hperm, hleads, -⟩ := h.inOrder.pop hne (h.nodup hcalls.distinct)
    exact ⟨d, out, hpop, hperm, fun e he ↦ h.leads_iff.mp (hleads e he)⟩

/-- A draft of a side from zero to one. -/
def sideDraft (priority : Float) (id depth : Int) : NodeDraft where
  priority := .real priority
  id := .int id
  depth := .int depth
  lower := .ofVector #v[0.0]
  upper := .ofVector #v[1.0]
  lowerBound := .real negInf
  relaxed := none
  status := .unsolved

theorem sideDraft_hasNumbers {priority : Float} (h : Scalar.isUndefined priority = false)
    (id depth : Int) : (sideDraft priority id depth).HasNumbers :=
  ⟨rfl, h, rfl, rfl⟩

theorem after_answers_sideDraft :
    (after .hybrid 2 [.push (sideDraft (-9.0) 1 0), .push (sideDraft 0.0 2 5), .pop,
      .push (sideDraft (-5.0) 3 1), .prune (-1.0)]).Answers .hybrid 2
        [sideDraft (-9.0) 1 0, sideDraft 0.0 2 5, sideDraft (-5.0) 3 1] := by
  apply after_answers
  constructor
  · intro d hd
    rcases List.mem_cons.mp hd with rfl | hd
    · exact sideDraft_hasNumbers (by decide) 1 0
    rcases List.mem_cons.mp hd with rfl | hd
    · exact sideDraft_hasNumbers (by decide) 2 5
    · obtain rfl := List.mem_singleton.mp hd
      exact sideDraft_hasNumbers (by decide) 3 1
  · decide

end DraftPool.Account

end GlobalQcqp
