import GlobalQcqp.Proofs.Tightening
import GlobalQcqp.Search.Tree
/-!
# Refused tightening

A node is tightened unless its epigraph variable has no place, there are functions to range over but
no variables, or a function or a relaxation that is made for it has numbers outside the finite
range.  The relations of this module list these faults, and a propagator is refused exactly for
those that apply to it, whatever the numbers are and whatever the solvers answer.
-/

namespace GlobalQcqp

/-! ## Numbers out of range -/

/-- The numbers of a function that was to be made have left the finite range. -/
inductive Fault.IsOverflow {α : Type} [Scalar α] : Fault α → Prop
  | entries : IsOverflow .infiniteEntries
  | constant {value : α} (h : Scalar.isFinite value = false) : IsOverflow (.infiniteConstant value)

/-- The step can be refused for numbers out of range only. -/
def FailsByOverflow {α ε : Type} [Scalar α] (x : Except (Fault α) ε) : Prop :=
  ∀ ⦃fault⦄, x = .error fault → fault.IsOverflow

namespace FailsByOverflow

variable {α ε δ ι : Type} [Scalar α]

theorem ok (a : ε) : FailsByOverflow (.ok a : Except (Fault α) ε) :=
  nofun

theorem bind {x : Except (Fault α) ε} {f : ε → Except (Fault α) δ} (hx : FailsByOverflow x)
    (hf : ∀ a, FailsByOverflow (f a)) : FailsByOverflow (x >>= f) := by
  intro fault h
  rcases bind_eq_error_iff.mp h with hfirst | ⟨a, -, hsecond⟩
  · exact hx hfirst
  · exact hf a hsecond

theorem mapM {f : ι → Except (Fault α) ε} {l : List ι} (hf : ∀ i ∈ l, FailsByOverflow (f i)) :
    FailsByOverflow (l.mapM f) := by
  induction l with
  | nil => exact ok []
  | cons i l ih =>
      rw [List.mapM_cons]
      refine (hf i List.mem_cons_self).bind fun a ↦ ?_
      exact (ih fun j hj ↦ hf j (List.mem_cons_of_mem i hj)).bind fun rest ↦ ok (a :: rest)

variable {n : ℕ}

theorem quadratic? (d : Coefficients α n) : FailsByOverflow d.quadratic? := by
  intro fault h
  unfold Coefficients.quadratic? at h
  split at h
  · cases h
    exact .entries
  · split at h
    · cases h
      exact .constant (by simpa using ‹(!Scalar.isFinite d.constant) = true›)
    · cases h

theorem lowered? (q : Quadratic α n) (box : Box α n) (shift : α) :
    FailsByOverflow (q.lowered? box shift) := by
  unfold Quadratic.lowered?
  split
  · exact ok q
  · exact quadratic? _

variable {β π : Type} [Scalar β] [Extended α β]

theorem objectiveCut? (objective : Quadratic α n) (progress : Progress β π) :
    FailsByOverflow (Problem.objectiveCut? objective progress) := by
  unfold Problem.objectiveCut?
  split
  · exact (quadratic? _).bind fun cut ↦ ok [cut]
  · exact ok []

theorem functions? (settings : Feasibility.Settings α) (p : Problem α) (progress : Progress β π) :
    FailsByOverflow (Feasibility.functions? settings p progress) := by
  have hpair (h : Quadratic α p.size) :
      FailsByOverflow (do return [h, ← h.neg?] : Except (Fault α) (List (Quadratic α p.size))) :=
    (quadratic? h.negCoefficients).bind fun negative ↦ ok [h, negative]
  refine (mapM fun h _ ↦ hpair h).bind fun both ↦ ?_
  simp only
  split
  · exact (objectiveCut? _ _).bind fun cut ↦ ok _
  · exact ok _

theorem relaxation? (p : Problem α) (routine : EigenRoutine α) (box : Box α p.size) :
    FailsByOverflow (p.relaxation? routine box) := by
  have happly (q : Quadratic α p.size) :
      FailsByOverflow (Lowering.apply (·.lowered? box ·) routine q).result :=
    lowered? q box _
  have hstep : ∀ step ∈ p.constraintSteps routine (·.lowered? box ·),
      FailsByOverflow step.result := by
    intro step hstep
    rcases List.mem_append.mp hstep with hstep | hstep
    · obtain ⟨g, -, rfl⟩ := List.mem_map.mp hstep
      exact happly g
    · obtain ⟨h, -, hstep⟩ := List.mem_flatMap.mp hstep
      rcases List.mem_cons.mp hstep with rfl | hstep
      · exact happly h
      · rw [List.mem_singleton.mp hstep]
        have hneg : FailsByOverflow h.neg? := quadratic? _
        cases hnegative : h.neg? with
        | error fault =>
            rw [hnegative] at hneg
            exact hneg
        | ok g => exact happly g
  have hall : FailsByOverflow (p.lowerAll routine (·.lowered? box ·)) :=
    (happly p.objective).bind fun objective ↦
      (mapM hstep).bind fun constraints ↦ ok (objective, constraints)
  refine hall.bind ?_
  rintro ⟨objective, constraints⟩
  exact ok _

end FailsByOverflow

variable {α β π σ : Type} [Scalar α] [Scalar β] [Extended α β] {p : Problem α}

/-! ## The epigraph variable -/

def Problem.EpigraphIsPlaced (p : Problem α) : Prop :=
  ∀ place ∈ p.epigraph, ∃ s, position? p.stored place = some s

/-- Only an epigraph variable without a place is not clamped. -/
theorem Problem.tightenEpigraph_eq_error_iff {node : Node α β p.stored} {v : β} {fault : Fault α} :
    p.tightenEpigraph node v = .error fault ↔ ¬ p.EpigraphIsPlaced ∧ fault = .misfit .position := by
  unfold tightenEpigraph Node.clampAt EpigraphIsPlaced
  cases hplace : p.epigraph with
  | none => simp
  | some place =>
      cases hposition : position? p.stored place with
      | none => simp [hposition, eq_comm]
      | some s => simp [hposition]

theorem Problem.tightenEpigraph_of_not_placed (hp : ¬ p.EpigraphIsPlaced)
    (node : Node α β p.stored) (v : β) : p.tightenEpigraph node v = .error (.misfit .position) :=
  tightenEpigraph_eq_error_iff.mpr ⟨hp, rfl⟩

theorem Problem.tightenEpigraph_succeeds (hp : p.EpigraphIsPlaced) (node : Node α β p.stored)
    (v : β) : Succeeds (p.tightenEpigraph node v) :=
  succeeds_iff.mpr fun _ h ↦ (tightenEpigraph_eq_error_iff.mp h).1 hp

/-! ## Tightening by ranges -/

namespace Feasibility

variable {n : ℕ}

theorem exists_largestMove? (hn : 0 < n) (before after : Vector (Interval α) n) :
    ∃ move, largestMove? before after = some move := by
  obtain ⟨m, rfl⟩ := Nat.exists_eq_add_of_lt hn
  rw [largestMove?, List.finRange_succ, List.map_cons]
  exact ⟨_, rfl⟩

theorem passes_succeeds (hn : 0 < n) (settings : Settings α) (qs : List (Quadratic α n))
    (count : ℕ) (sides : Vector (Interval α) n) : Succeeds (passes settings qs count sides) := by
  induction count generalizing sides with
  | zero => exact succeeds_ok _
  | succ count ih =>
      simp only [passes]
      split
      · exact succeeds_ok _
      · rename_i next _
        obtain ⟨move, hmove⟩ := exists_largestMove? hn sides next
        simp only [hmove]
        split
        · exact succeeds_ok _
        · exact ih next

/-- Without variables no point is ever cut off, and there is no move to compare. -/
theorem passes_of_size_eq_zero (hn : n = 0) (settings : Settings α) (qs : List (Quadratic α n))
    {count : ℕ} (hcount : count ≠ 0) (sides : Vector (Interval α) n) :
    passes settings qs count sides = .error (.misfit .content) := by
  obtain ⟨count, rfl⟩ := Nat.exists_eq_succ_of_ne_zero hcount
  subst hn
  have hsweep : sweep qs settings.tol sides = some sides := by
    induction qs with
    | nil => rfl
    | cons q qs ih => exact ih
  rw [passes, hsweep]
  rfl

theorem passes_eq_error_iff {settings : Settings α} {qs : List (Quadratic α n)} {count : ℕ}
    {sides : Vector (Interval α) n} {fault : Fault α} :
    passes settings qs count sides = .error fault ↔
      n = 0 ∧ count ≠ 0 ∧ fault = .misfit .content := by
  rcases Nat.eq_zero_or_pos n with hn | hn
  · rcases eq_or_ne count 0 with rfl | hcount
    · simp [passes]
    · rw [passes_of_size_eq_zero hn settings qs hcount]
      simp [hn, hcount, eq_comm]
  · obtain ⟨found, hfound⟩ := passes_succeeds hn settings qs count sides
    simp [hfound, hn.ne']

/-- The faults for which tightening by ranges is refused. -/
inductive Refuses (settings : Settings α) (p : Problem α) (progress : Progress β π) :
    Fault α → Prop
  | epigraph (hplace : ¬ p.EpigraphIsPlaced) : Refuses settings p progress (.misfit .position)
  | functions {fault : Fault α} (hplace : p.EpigraphIsPlaced)
      (h : functions? settings p progress = .error fault) : Refuses settings p progress fault
  | noVariables {q : Quadratic α p.size} {qs : List (Quadratic α p.size)}
      (hplace : p.EpigraphIsPlaced) (h : functions? settings p progress = .ok (q :: qs))
      (hsize : p.size = 0) (hpasses : settings.maxPasses ≠ 0) :
      Refuses settings p progress (.misfit .content)

theorem propagator_eq_error_iff {settings : Settings α} {node : Node α β p.stored}
    {progress : Progress β π} {s : σ} {fault : Fault α} :
    propagator settings p node progress s = .error fault ↔ Refuses settings p progress fault := by
  by_cases hplace : p.EpigraphIsPlaced
  · obtain ⟨clamped, hclamped⟩ := p.tightenEpigraph_succeeds hplace node progress.incumbentValue
    rw [propagator, hclamped, ok_bind, bind_eq_error_iff]
    constructor
    · rintro (hfunctions | ⟨qs, hfunctions, h⟩)
      · exact .functions hplace hfunctions
      · cases qs with
        | nil => cases h
        | cons q qs =>
            rw [List.isEmpty_cons, if_neg Bool.false_ne_true] at h
            rcases bind_eq_error_iff.mp h with hrefused | ⟨found, -, h⟩
            · obtain ⟨hsize, hpasses, rfl⟩ := passes_eq_error_iff.mp hrefused
              exact .noVariables hplace hfunctions hsize hpasses
            · cases found with
              | none => cases h
              | some sides =>
                  simp only at h
                  split at h
                  · cases h
                  · cases h
    · intro h
      cases h with
      | epigraph hnone => exact absurd hplace hnone
      | functions _ hfunctions => exact Or.inl hfunctions
      | noVariables _ hfunctions hsize hpasses =>
          refine Or.inr ⟨_, hfunctions, ?_⟩
          rw [List.isEmpty_cons, if_neg Bool.false_ne_true,
            passes_eq_error_iff.mpr ⟨hsize, hpasses, rfl⟩]
          rfl
  · have hrefused : propagator settings p node progress s = .error (.misfit .position) := by
      rw [propagator, Problem.tightenEpigraph_of_not_placed hplace]
      rfl
    rw [hrefused]
    constructor
    · rintro ⟨⟩
      exact .epigraph hplace
    · intro h
      cases h with
      | epigraph _ => rfl
      | functions hplaced _ => exact absurd hplaced hplace
      | noVariables hplaced _ _ _ => exact absurd hplaced hplace

end Feasibility

/-! ## Tightening by probes -/

namespace Optimality

/-- The faults for which tightening by probes is refused. -/
inductive Refuses (settings : Settings α) (routine : EigenRoutine α) (p : Problem α)
    (node : Node α β p.stored) (progress : Progress β π) : Fault α → Prop
  | epigraph (hplace : ¬ p.EpigraphIsPlaced) :
      Refuses settings routine p node progress (.misfit .position)
  | relaxation {clamped : Node α β p.stored} {fault : Fault α}
      (hclamped : p.tightenEpigraph node progress.incumbentValue = .ok clamped)
      (hdepth : clamped.depth ≤ settings.maxDepth)
      (h : p.relaxation? routine (p.restrictBox clamped.box) = .error fault) :
      Refuses settings routine p node progress fault
  | cut {clamped : Node α β p.stored} {c : ConvexProblem α p.size} {fault : Fault α}
      (hclamped : p.tightenEpigraph node progress.incumbentValue = .ok clamped)
      (hdepth : clamped.depth ≤ settings.maxDepth)
      (hc : p.relaxation? routine (p.restrictBox clamped.box) = .ok c)
      (h : Problem.objectiveCut? c.objective progress = .error fault) :
      Refuses settings routine p node progress fault

theorem probeSides_eq_error_iff {settings : Settings α} {convex : ConvexSolver α β p.size σ}
    {node : Node α β p.stored} {progress : Progress β π} {c : ConvexProblem α p.size} {s : σ}
    {fault : Fault α} : probeSides settings p convex node progress c s = .error fault ↔
      Problem.objectiveCut? c.objective progress = .error fault := by
  rw [probeSides, bind_eq_error_iff]
  refine or_iff_left ?_
  rintro ⟨cut, -, h⟩
  simp only at h
  split at h
  · cases h
  · cases h

theorem propagator_eq_error_iff {settings : Settings α} {routine : EigenRoutine α}
    {convex : ConvexSolver α β p.size σ} {node : Node α β p.stored} {progress : Progress β π}
    {s : σ} {fault : Fault α} :
    propagator settings routine p convex node progress s = .error fault ↔
      Refuses settings routine p node progress fault := by
  rw [propagator, bind_eq_error_iff]
  constructor
  · rintro (hclamp | ⟨clamped, hclamped, h⟩)
    · obtain ⟨hplace, rfl⟩ := Problem.tightenEpigraph_eq_error_iff.mp hclamp
      exact .epigraph hplace
    · split at h
      · cases h
      · have hdepth : clamped.depth ≤ settings.maxDepth := not_lt.mp ‹_›
        rcases bind_eq_error_iff.mp h with hrelaxation | ⟨c, hc, h⟩
        · exact .relaxation hclamped hdepth hrelaxation
        · exact .cut hclamped hdepth hc (probeSides_eq_error_iff.mp h)
  · intro h
    cases h with
    | epigraph hplace => exact Or.inl (Problem.tightenEpigraph_of_not_placed hplace node _)
    | relaxation hclamped hdepth h =>
        refine Or.inr ⟨_, hclamped, ?_⟩
        rw [if_neg hdepth.not_gt, h]
        rfl
    | cut hclamped hdepth hc h =>
        refine Or.inr ⟨_, hclamped, ?_⟩
        rw [if_neg hdepth.not_gt, hc, ok_bind]
        exact probeSides_eq_error_iff.mpr h

end Optimality

/-! ## The propagators of a standard search -/

omit [Scalar α] [Scalar β] [Extended α β] in
/-- The second of two propagators goes on with the open node that the first one leaves. -/
theorem Propagator.sequence_pair_eq_error_iff {k : ℕ} {first second : Propagator α β k π σ}
    {node : Node α β k} {progress : Progress β π} {s : σ} {fault : Fault α} :
    sequence [first, second] node progress s = .error fault ↔
      first node progress s = .error fault ∨ ∃ r, first node progress s = .ok r ∧
        r.isOpen = true ∧ second r.node progress r.solver = .error fault := by
  have hlast (node : Node α β k) (s : σ) : sequence [second] node progress s = .error fault ↔
      second node progress s = .error fault := by
    rw [sequence, bind_eq_error_iff]
    refine or_iff_left ?_
    rintro ⟨r, -, h⟩
    split at h
    · cases h
    · cases h
  rw [sequence, bind_eq_error_iff]
  refine or_congr_right (exists_congr fun r ↦ and_congr_right fun _ ↦ ?_)
  cases r.isOpen with
  | false => simp
  | true => simp [bind_eq_error_iff, hlast]

/-- The mode tightens by ranges, which takes a variable to range over. -/
def PropagationMode.usesRanges : PropagationMode → Bool
  | .none => false
  | .feasibility => true
  | .optimality => false
  | .both => true

namespace Components

/-- The faults for which a node is not tightened. Probes come alone or after ranges that leave the
node open. -/
inductive Refuses (p : Problem α) (options : Options α β) (routine : EigenRoutine α)
    (node : Node α β p.stored) (progress : Progress β π) (s : σ) : Fault α → Prop
  | ranges {fault : Fault α} (hmode : options.propagation.usesRanges = true)
      (h : Feasibility.Refuses (feasibilitySettings options) p progress fault) :
      Refuses p options routine node progress s fault
  | probes {fault : Fault α} (hmode : options.propagation = .optimality)
      (h : Optimality.Refuses (optimalitySettings options) routine p node progress fault) :
      Refuses p options routine node progress s fault
  | probesAfterRanges {r : Propagated α β p.stored σ} {fault : Fault α}
      (hmode : options.propagation = .both)
      (hr : Feasibility.propagator (feasibilitySettings options) p node progress s = .ok r)
      (hopen : r.isOpen = true)
      (h : Optimality.Refuses (optimalitySettings options) routine p r.node progress fault) :
      Refuses p options routine node progress s fault

theorem propagator_eq_error_iff {options : Options α β} {routine : EigenRoutine α}
    {convex : ConvexSolver α β p.size σ} {node : Node α β p.stored}
    {progress : Progress β (Vector α p.stored)} {s : σ} {fault : Fault α} :
    propagator p options routine convex node progress s = .error fault ↔
      Refuses p options routine node progress s fault := by
  have hranges : Feasibility.propagator (feasibilitySettings options) p node progress s =
      .error fault ↔ Feasibility.Refuses (feasibilitySettings options) p progress fault :=
    Feasibility.propagator_eq_error_iff
  unfold propagator
  constructor
  · intro h
    cases hmode : options.propagation with
    | none =>
        rw [hmode] at h
        cases h
    | feasibility =>
        rw [hmode] at h
        exact .ranges (by rw [hmode]; rfl) (hranges.mp h)
    | optimality =>
        rw [hmode] at h
        exact .probes hmode (Optimality.propagator_eq_error_iff.mp h)
    | both =>
        rw [hmode] at h
        rcases Propagator.sequence_pair_eq_error_iff.mp h with h | ⟨r, hr, hopen, h⟩
        · exact .ranges (by rw [hmode]; rfl) (hranges.mp h)
        · exact .probesAfterRanges hmode hr hopen (Optimality.propagator_eq_error_iff.mp h)
  · intro h
    cases h with
    | ranges hmode h =>
        cases hpropagation : options.propagation with
        | none => rw [hpropagation] at hmode; cases hmode
        | feasibility => exact hranges.mpr h
        | optimality => rw [hpropagation] at hmode; cases hmode
        | both => exact Propagator.sequence_pair_eq_error_iff.mpr (Or.inl (hranges.mpr h))
    | probes hmode h =>
        rw [hmode]
        exact Optimality.propagator_eq_error_iff.mpr h
    | probesAfterRanges hmode hr hopen h =>
        rw [hmode]
        refine Propagator.sequence_pair_eq_error_iff.mpr (Or.inr ⟨_, hr, hopen, ?_⟩)
        exact Optimality.propagator_eq_error_iff.mpr h

/-- With a place for the epigraph variable and a variable to range over, tightening can be refused
for numbers out of range only. -/
theorem Refuses.isOverflow {options : Options α β} {routine : EigenRoutine α}
    {node : Node α β p.stored} {progress : Progress β (Vector α p.stored)} {s : σ}
    {fault : Fault α} (h : Refuses p options routine node progress s fault)
    (hplace : p.EpigraphIsPlaced)
    (hsize : options.propagation.usesRanges = true → 0 < p.size) : fault.IsOverflow := by
  have hprobes {node : Node α β p.stored}
      (h : Optimality.Refuses (optimalitySettings options) routine p node progress fault) :
      fault.IsOverflow := by
    cases h with
    | epigraph hnone => exact absurd hplace hnone
    | relaxation _ _ h => exact FailsByOverflow.relaxation? p routine _ h
    | cut _ _ _ h => exact FailsByOverflow.objectiveCut? _ progress h
  cases h with
  | ranges hmode h =>
      cases h with
      | epigraph hnone => exact absurd hplace hnone
      | functions _ h => exact FailsByOverflow.functions? _ p progress h
      | noVariables _ _ hzero _ => exact absurd hzero (hsize hmode).ne'
  | probes _ h => exact hprobes h
  | probesAfterRanges _ _ _ h => exact hprobes h

end Components

end GlobalQcqp
