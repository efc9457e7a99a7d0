import GlobalQcqp.Proofs.Search.Execution
import GlobalQcqp.Relaxation.Builder
/-!
# What a builder makes

None of the shifts that a builder keeps is negative, so whatever it has served before, it makes a
relaxation on its box.  That holds even where a shift is kept under the name of another function.
When the names keep the functions of a problem apart, it is the relaxation that is made without a
builder.  One relaxation of a problem takes all the shifts that any other one takes, so after the
first one a builder stays as it is.
-/

namespace GlobalQcqp

/-! ## Steps that keep an invariant -/

namespace Building

section Steps

variable {α ε δ : Type} {I J K : Builder α → Prop} {P : ε → Prop} {Q : δ → Prop}

/-- From such a builder a step is not refused, leads to such another one and gives such a result. -/
def Leads (I : Builder α → Prop) (x : Building α ε) (J : Builder α → Prop) (P : ε → Prop) : Prop :=
  ∀ b, I b → ∃ a b', x.run b = (.ok a, b') ∧ J b' ∧ P a

/-- The step keeps an invariant of builders. -/
abbrev Keeps (I : Builder α → Prop) (x : Building α ε) (P : ε → Prop) : Prop :=
  Leads I x I P

theorem leads_pure {a : ε} (h : ∀ b, I b → J b) (ha : P a) : Leads I (pure a) J P :=
  fun b hb ↦ ⟨a, b, rfl, h b hb, ha⟩

theorem keeps_pure {a : ε} (ha : P a) : Keeps I (pure a) P :=
  leads_pure (fun _ ↦ id) ha

theorem keeps_lift {x : Except (Fault α) ε} {a : ε} (hx : x = .ok a) (ha : P a) :
    Keeps I (liftM x : Building α ε) P := by
  subst hx
  exact fun b hb ↦ ⟨a, b, rfl, hb, ha⟩

theorem keeps_get : Keeps I (get : Building α (Builder α)) I :=
  fun b hb ↦ ⟨b, b, rfl, hb, hb⟩

theorem leads_modify {f : Builder α → Builder α} (hf : ∀ b, I b → J (f b)) :
    Leads I (modify f : Building α PUnit) J fun _ ↦ True :=
  fun b hb ↦ ⟨⟨⟩, f b, rfl, hf b hb, trivial⟩

theorem Leads.imp {x : Building α ε} {P' : ε → Prop} (hx : Leads I x J P)
    (hJ : ∀ b, J b → K b) (hP : ∀ a, P a → P' a) : Leads I x K P' := by
  intro b hb
  obtain ⟨a, b', hrun, hb', ha⟩ := hx b hb
  exact ⟨a, b', hrun, hJ b' hb', hP a ha⟩

theorem Leads.bind {x : Building α ε} {f : ε → Building α δ} (hx : Leads I x J P)
    (hf : ∀ a, P a → Leads J (f a) K Q) : Leads I (x >>= f) K Q := by
  intro b hb
  obtain ⟨a, b₁, hfirst, hb₁, ha⟩ := hx b hb
  obtain ⟨c, b₂, hsecond, hb₂, hc⟩ := hf a ha b₁ hb₁
  refine ⟨c, b₂, ?_, hb₂, hc⟩
  calc (x >>= f).run b = (ExceptT.bindCont f (x.run b).1) (x.run b).2 := rfl
    _ = (f a).run b₁ := by rw [hfirst]; rfl
    _ = (.ok c, b₂) := hsecond

theorem keeps_mapM {ι : Type} {f : ι → Building α ε} {R : ι → ε → Prop} {l : List ι}
    (h : ∀ i ∈ l, Keeps I (f i) (R i)) : Keeps I (l.mapM f) (List.Forall₂ R l) := by
  induction l with
  | nil => exact keeps_pure .nil
  | cons i l ih =>
      rw [List.mapM_cons]
      refine (h i List.mem_cons_self).bind fun a ha ↦ ?_
      refine (ih fun j hj ↦ h j (List.mem_cons_of_mem i hj)).bind fun rest hrest ↦ ?_
      exact keeps_pure (.cons ha hrest)

/-- One of the steps leads to such a builder, and the others do not leave it. -/
theorem leads_mapM {ι : Type} {f : ι → Building α ε} {i : ι} {l : List ι} (hi : i ∈ l)
    (hleads : Leads I (f i) J fun _ ↦ True) (hI : ∀ i, Keeps I (f i) fun _ ↦ True)
    (hJ : ∀ i, Keeps J (f i) fun _ ↦ True) : Leads I (l.mapM f) J fun _ ↦ True := by
  induction l with
  | nil => cases hi
  | cons j l ih =>
      rw [List.mapM_cons]
      rcases List.mem_cons.mp hi with rfl | hi
      · refine hleads.bind fun a _ ↦ ?_
        exact (keeps_mapM fun i _ ↦ hJ i).bind fun rest _ ↦ keeps_pure trivial
      · refine (hI j).bind fun a _ ↦ ?_
        exact (ih hi).bind fun rest _ ↦ keeps_pure trivial

/-- The position of an entry may be used to treat it, but the result is related to the entry. -/
theorem keeps_mapM_zipIdx {ι : Type} {f : ι × ℕ → Building α ε} {R : ι → ε → Prop} {l : List ι}
    (h : ∀ i j, l[j]? = some i → Keeps I (f (i, j)) (R i)) :
    Keeps I (l.zipIdx.mapM f) (List.Forall₂ R l) := by
  have hentries : Keeps I (l.zipIdx.mapM f) (List.Forall₂ (fun entry ↦ R entry.1) l.zipIdx) :=
    keeps_mapM fun entry hentry ↦ h entry.1 entry.2 (List.mem_zipIdx_iff_getElem?.mp hentry)
  intro b hb
  obtain ⟨results, b', hrun, hb', hresults⟩ := hentries b hb
  have hmapped := List.forall₂_map_left_iff.mpr hresults
  rw [List.zipIdx_map_fst] at hmapped
  exact ⟨results, b', hrun, hb', hmapped⟩

end Steps

end Building

namespace Builder

/-- Every shift that is kept is related to what it is kept under. -/
def Holds (R : ShiftKey → ℝ → Prop) (b : Builder ℝ) : Prop :=
  ∀ entry ∈ b.shifts, R entry.1 entry.2

variable {R : ShiftKey → ℝ → Prop} {b : Builder ℝ} {key : ShiftKey}

theorem holds_empty : (empty : Builder ℝ).Holds R :=
  nofun

theorem Holds.keep (hb : b.Holds R) {bound : SpectralBound ℝ} (h : R key bound.shift) :
    (b.keep key bound).Holds R := by
  rintro entry (_ | ⟨_, hentry⟩)
  · exact h
  · exact hb entry hentry

theorem Holds.shift? (hb : b.Holds R) {shift : ℝ} (h : b.shift? key = some shift) :
    R key shift := by
  obtain ⟨before, after, hshifts, -⟩ := List.lookup_eq_some_iff.mp h
  exact hb (key, shift) (by rw [hshifts]; simp)

end Builder

/-! ## What is made under an invariant of the shifts -/

/-- Each function of a convex problem is related to the one of the problem that it stands for. -/
structure ConvexProblem.Renders {p : Problem ℝ} (c : ConvexProblem ℝ p.size)
    (P : Quadratic ℝ p.size → Quadratic ℝ p.size → Prop) : Prop where
  objective : P p.objective c.objective
  constraints : List.Forall₂ P p.inequalities c.constraints

namespace Building

open Builder

variable {n name : ℕ} {key : ShiftKey} {R : ShiftKey → ℝ → Prop} {I J K : Builder ℝ → Prop}
  {S T : ℝ → Prop} {routine : EigenRoutine ℝ} {box : Box ℝ n} {q h : Quadratic ℝ n}
  {P Q : Quadratic ℝ n → Prop}

theorem keeps_shift (hR : R key (q.signedBound routine key.negated).shift) :
    Keeps (Holds R) (shift routine key q) (R key) := by
  refine keeps_get.bind fun b hb ↦ ?_
  cases hkept : b.shift? key with
  | some s => exact keeps_pure (hb.shift? hkept)
  | none => exact (leads_modify fun b hb ↦ hb.keep hR).bind fun _ _ ↦ keeps_pure hR

theorem leads_under (hshift : Leads I (shift routine ⟨name, false⟩ q) J S)
    (hP : ∀ s, S s → P (q.lowered box s)) :
    Leads I (under routine (·.lowered? box ·) name q) J P := by
  refine hshift.bind fun s hs ↦ ?_
  exact keeps_lift (q.lowered?_eq_ok box s) (hP s hs)

theorem leads_underBoth (habove : Leads I (shift routine ⟨name, false⟩ h) J S)
    (hbelow : Leads J (shift routine ⟨name, true⟩ h) K T) (hP : ∀ s, S s → P (h.lowered box s))
    (hQ : ∀ s, T s → Q (h.neg.lowered box s)) :
    Leads I (underBoth routine (·.lowered? box ·) name h) K fun pair ↦ P pair.1 ∧ Q pair.2 := by
  refine (leads_under habove hP).bind fun above habove ↦ ?_
  refine (keeps_lift h.neg?_eq_ok rfl).bind ?_
  rintro negative rfl
  refine hbelow.bind fun s hs ↦ ?_
  refine (keeps_lift (h.neg.lowered?_eq_ok box s) rfl).bind ?_
  rintro below rfl
  exact keeps_pure ⟨habove, hQ s hs⟩

theorem keeps_buildRelaxation {p : Problem ℝ} {names : FunctionNames} {box : Box ℝ p.stored}
    {P : Quadratic ℝ p.size → Quadratic ℝ p.size → Prop}
    (hobjective : Keeps I
      (under routine (·.lowered? (p.restrictBox box) ·) names.objective p.objective)
      (P p.objective))
    (hconstraints : ∀ g j, p.constraints[j]? = some g → Keeps I
      (under routine (·.lowered? (p.restrictBox box) ·) (names.constraint j) g) (P g))
    (hequalities : ∀ h j, p.equalities[j]? = some h → Keeps I
      (underBoth routine (·.lowered? (p.restrictBox box) ·) (names.equality j) h)
      fun pair ↦ P h pair.1 ∧ P h.neg pair.2) :
    Keeps I (p.buildRelaxation names routine box) fun c ↦
      c.box = p.restrictBox box ∧ c.Renders P := by
  have hall : Keeps I (p.underAll names routine (·.lowered? (p.restrictBox box) ·))
      fun parts ↦ P p.objective parts.1 ∧ List.Forall₂ P p.inequalities parts.2 := by
    refine hobjective.bind fun objective hP ↦ ?_
    refine (keeps_mapM_zipIdx hconstraints).bind fun under hunder ↦ ?_
    refine (keeps_mapM_zipIdx hequalities).bind fun pairs hpairs ↦ ?_
    refine keeps_pure ⟨hP, List.rel_append hunder ?_⟩
    exact List.rel_flatMap hpairs fun h pair hpair ↦ .cons hpair.1 (.cons hpair.2 .nil)
  refine hall.bind fun parts hparts ↦ ?_
  exact keeps_pure ⟨rfl, hparts.1, hparts.2⟩

end Building

/-! ## Builders that have served other builds -/

/-- The builders that some sequence of builds leaves, each for a problem, with names and with a
routine of its own. -/
inductive Builder.HasServed : Builder ℝ → Prop
  | empty : HasServed .empty
  | build {b} (hb : HasServed b) (p : Problem ℝ) (names : FunctionNames)
      (routine : EigenRoutine ℝ) (box : Box ℝ p.stored) :
      HasServed ((p.buildRelaxation names routine box).run b).2

/-- The second function is nowhere above the first one on the box. -/
def Quadratic.IsAbove {n : ℕ} (box : Box ℝ n) (q r : Quadratic ℝ n) : Prop :=
  ∀ x ∈ box, r.eval x ≤ q.eval x

variable {p : Problem ℝ} {names : FunctionNames} {routine : EigenRoutine ℝ} {b : Builder ℝ}

theorem Problem.keeps_underestimates {box : Box ℝ p.stored} :
    Building.Keeps (Builder.Holds fun _ shift ↦ 0 ≤ shift) (p.buildRelaxation names routine box)
      fun c ↦ c.box = p.restrictBox box ∧ c.Renders (Quadratic.IsAbove (p.restrictBox box)) := by
  have hlowered (q : Quadratic ℝ p.size) (s : ℝ) (hs : 0 ≤ s) :
      q.IsAbove (p.restrictBox box) (q.lowered (p.restrictBox box) s) :=
    fun x hx ↦ q.lowered_le hx hs
  have hshift (key : ShiftKey) (q : Quadratic ℝ p.size) :
      Building.Keeps (Builder.Holds fun _ shift ↦ 0 ≤ shift) (Building.shift routine key q)
        (0 ≤ ·) :=
    Building.keeps_shift (R := fun _ shift ↦ 0 ≤ shift) (SpectralBound.shift_nonneg _)
  apply Building.keeps_buildRelaxation
  · exact Building.leads_under (hshift _ _) (hlowered p.objective)
  · intro g j _
    exact Building.leads_under (hshift _ _) (hlowered g)
  · intro h j _
    exact Building.leads_underBoth (hshift _ _) (hshift _ _) (hlowered h) (hlowered h.neg)

/-- Nothing that a builder has served makes it keep a negative shift. -/
theorem Builder.HasServed.shift_nonneg (hb : b.HasServed) :
    b.Holds fun _ shift ↦ 0 ≤ shift := by
  induction hb with
  | empty => exact holds_empty
  | build _ p names routine box ih =>
      obtain ⟨_, b', hrun, hb', -⟩ := p.keeps_underestimates _ ih
      rw [hrun]
      exact hb'

theorem exists_of_forall₂ {ι κ : Type} {R : ι → κ → Prop} {l : List ι} {l' : List κ}
    (h : List.Forall₂ R l l') {k : κ} (hk : k ∈ l') : ∃ i ∈ l, R i k := by
  induction h with
  | nil => cases hk
  | @cons i _ l _ hi _ ih =>
      rcases List.mem_cons.mp hk with rfl | hk
      · exact ⟨i, List.mem_cons_self, hi⟩
      · obtain ⟨j, hj, hR⟩ := ih hk
        exact ⟨j, List.mem_cons_of_mem i hj, hR⟩

/-- The values of the inequalities at a point. -/
theorem Problem.map_eval_inequalities (p : Problem ℝ) (x : Vector ℝ p.size) :
    p.inequalities.map (·.eval x) =
      p.constraints.map (·.eval x) ++ p.equalities.flatMap fun h ↦ [h.eval x, -h.eval x] := by
  rw [inequalities, List.map_append, List.map_flatMap]
  simp only [List.map_cons, List.map_nil, Quadratic.eval_neg]

/-- Whatever a builder has served before, what it makes for a problem on a stored box is a
relaxation there.  At each point of the box the objective, the constraints one by one and the two
functions made for each equality are no larger than in the problem, so feasible points stay
feasible. -/
theorem Problem.buildRelaxation_underestimates (p : Problem ℝ) (names : FunctionNames)
    (routine : EigenRoutine ℝ) (box : Box ℝ p.stored) (hb : b.HasServed) :
    ∃ c b', (p.buildRelaxation names routine box).run b = (.ok c, b') ∧
      c.box = p.restrictBox box ∧ ∀ x ∈ p.restrictBox box,
        c.objective.eval x ≤ p.objective.eval x ∧
        List.Forall₂ (fun value bound ↦ bound ≤ value)
          (p.constraints.map (·.eval x) ++ p.equalities.flatMap fun h ↦ [h.eval x, -h.eval x])
          (c.constraints.map (·.eval x)) ∧
        ((∀ g ∈ p.constraints, g.eval x ≤ 0) → (∀ h ∈ p.equalities, h.eval x = 0) →
          x ∈ c.feasibleSet) := by
  obtain ⟨c, b', hrun, -, hbox, hobjective, hconstraints⟩ :=
    p.keeps_underestimates b hb.shift_nonneg
  refine ⟨c, b', hrun, hbox, fun x hx ↦ ⟨hobjective x hx, ?_, fun hg hh ↦ ?_⟩⟩
  · rw [← map_eval_inequalities, List.forall₂_map_left_iff, List.forall₂_map_right_iff]
    exact hconstraints.imp fun q r hle ↦ hle x hx
  · refine ⟨hbox ▸ hx, fun r hr ↦ ?_⟩
    obtain ⟨q, hq, hle⟩ := exists_of_forall₂ hconstraints hr
    exact (hle x hx).trans (eval_le_zero_of_mem_inequalities hg hh q hq)

namespace Line

/-- A builder that has kept a shift of one half for the objective. -/
noncomputable def servedBuilder : Builder ℝ :=
  (((problem []).buildRelaxation (problem []).ownNames (fun _ _ ↦ some (-1)) unit).run .empty).2

abbrev withEquality (p : Problem ℝ) (h : Quadratic ℝ p.size) : Problem ℝ :=
  { p with equalities := h :: p.equalities }

noncomputable abbrev pinned : Problem ℝ :=
  withEquality (problem []) (problem []).objective

/-- The shift that was kept serves a problem with one more equality. -/
theorem buildRelaxation_underestimates_kept :
    ∃ c b', (pinned.buildRelaxation pinned.ownNames Line.routine unit).run servedBuilder =
      (.ok c, b') ∧ #v[(0 : ℝ)] ∈ c.feasibleSet := by
  have hb : servedBuilder.HasServed := .build .empty (problem []) _ _ unit
  obtain ⟨c, b', hrun, -, hunder⟩ :=
    pinned.buildRelaxation_underestimates pinned.ownNames Line.routine unit hb
  have hbox : pinned.restrictBox unit = unit :=
    (restrictBox_eq unit : (problem []).restrictBox unit = unit)
  have hpoint : #v[(0 : ℝ)] ∈ pinned.restrictBox unit := by
    rw [hbox]
    exact mem_unit.mpr ⟨le_rfl, zero_le_one⟩
  refine ⟨c, b', hrun, (hunder _ hpoint).2.2 nofun ?_⟩
  intro h hh
  rw [List.mem_singleton.mp hh]
  exact (Quadratic.eval_coordinate 0 1 _).trans (mul_zero 1)

end Line

/-! ## Builders that have served one problem -/

namespace Quadratic

variable {n : ℕ} {q : Quadratic ℝ n}

theorem signedHessian_false : q.signedHessian false = q.hessian := by
  ext i hi j hj
  simp only [signedHessian, Vector.getElem_map, Bool.false_eq_true, if_false]
  norm_num

theorem signedHessian_true : q.signedHessian true = q.neg.hessian := by
  ext i hi j hj
  have hsymm : q.hessian[j][i] = q.hessian[i][j] := q.symmetric ⟨j, hj⟩ ⟨i, hi⟩
  simp only [signedHessian, neg, Coefficients.quadratic, ofMatrix, meanEntry, negCoefficients,
    getElem_fin, Vector.getElem_ofFn, Vector.getElem_map, if_true, hsymm]
  split <;> norm_num <;> ring

/-- The shift kept for a function or its negative is the one computed for the function itself. -/
theorem signedBound_eq (routine : EigenRoutine ℝ) (q : Quadratic ℝ n) (negated : Bool) :
    q.signedBound routine negated = (if negated then q.neg else q).spectralBound routine := by
  cases negated with
  | false => rw [signedBound, signedHessian_false]; rfl
  | true => rw [signedBound, signedHessian_true]; rfl

end Quadratic

namespace Problem

/-- The shifts that a relaxation of the problem takes. -/
inductive TakesShift (p : Problem ℝ) : ShiftKey → Quadratic ℝ p.size → Prop
  | objective : TakesShift p ⟨p.ownNames.objective, false⟩ p.objective
  | constraint {j g} (hg : p.constraints[j]? = some g) :
      TakesShift p ⟨p.ownNames.constraint j, false⟩ g
  | equality {j h} (hh : p.equalities[j]? = some h) (negated : Bool) :
      TakesShift p ⟨p.ownNames.equality j, negated⟩ h

/-- The function that goes by one of the problem's own names. -/
def named? (p : Problem ℝ) : ℕ → Option (Quadratic ℝ p.size)
  | 0 => some p.objective
  | j + 1 => (p.constraints ++ p.equalities)[j]?

variable {key : ShiftKey} {q : Quadratic ℝ p.size}

theorem TakesShift.named?_eq (h : p.TakesShift key q) : p.named? key.name = some q := by
  cases h with
  | objective => rfl
  | @constraint j _ hg =>
      have hlt : j < p.constraints.length := (List.getElem?_eq_some_iff.mp hg).1
      exact (List.getElem?_append_left hlt).trans hg
  | @equality j _ hh =>
      have hle : p.constraints.length ≤ p.constraints.length + j := Nat.le_add_right _ _
      refine (List.getElem?_append_right hle).trans ?_
      rwa [Nat.add_sub_cancel_left]

/-- Steps that give the right shifts give the relaxation that is made without a builder. -/
theorem keeps_relaxation {I : Builder ℝ → Prop} (box : Box ℝ p.stored)
    (h : ∀ key q, p.TakesShift key q → Building.Keeps I (Building.shift routine key q)
      (· = (q.signedBound routine key.negated).shift)) :
    Building.Keeps I (p.buildRelaxation p.ownNames routine box)
      fun c ↦ p.relaxation? routine (p.restrictBox box) = .ok c := by
  have hlowered (negated : Bool) (q : Quadratic ℝ p.size) (s : ℝ)
      (hs : s = (q.signedBound routine negated).shift) :
      (if negated then q.neg else q).convexUnder routine (p.restrictBox box) =
        (if negated then q.neg else q).lowered (p.restrictBox box) s := by
    rw [hs, Quadratic.signedBound_eq]
    rfl
  have hrenders : Building.Keeps I (p.buildRelaxation p.ownNames routine box) fun c ↦
      c.box = p.restrictBox box ∧
        c.Renders fun q r ↦ q.convexUnder routine (p.restrictBox box) = r := by
    apply Building.keeps_buildRelaxation
    · exact Building.leads_under (h _ _ .objective) (hlowered false _)
    · intro g j hg
      exact Building.leads_under (h _ _ (.constraint hg)) (hlowered false g)
    · intro e j he
      exact Building.leads_underBoth (h _ _ (.equality he false)) (h _ _ (.equality he true))
        (hlowered false e) (hlowered true e)
  refine hrenders.imp (fun _ ↦ id) fun c ↦ ?_
  rintro ⟨hbox, hobjective, hconstraints⟩
  have hmap : p.inequalities.map (·.convexUnder routine (p.restrictBox box)) = c.constraints := by
    rw [← List.forall₂_eq_eq_eq, List.forall₂_map_left_iff]
    exact hconstraints
  rw [relaxation?_eq_ok, relaxation, hobjective, hmap, ← hbox]

/-- The shift is the one of the function that is named. -/
def OwnShift (p : Problem ℝ) (routine : EigenRoutine ℝ) (key : ShiftKey) (shift : ℝ) : Prop :=
  ∀ q ∈ p.named? key.name, shift = (q.signedBound routine key.negated).shift

theorem TakesShift.ownShift (h : p.TakesShift key q) :
    p.OwnShift routine key (q.signedBound routine key.negated).shift := by
  intro r hr
  cases h.named?_eq.symm.trans hr
  rfl

theorem keeps_ownShift (box : Box ℝ p.stored) : Building.Keeps (Builder.Holds (p.OwnShift routine))
    (p.buildRelaxation p.ownNames routine box)
      fun c ↦ p.relaxation? routine (p.restrictBox box) = .ok c :=
  keeps_relaxation box fun _ q hkey ↦
    (Building.keeps_shift hkey.ownShift).imp (fun _ ↦ id) fun _ hs ↦ hs q hkey.named?_eq

/-- The builders that builds for one problem, under its own names and with one routine, leave. -/
inductive Serves (p : Problem ℝ) (routine : EigenRoutine ℝ) : Builder ℝ → Prop
  | empty : Serves p routine .empty
  | build {b : Builder ℝ} (hb : Serves p routine b) (box : Box ℝ p.stored) :
      Serves p routine ((p.buildRelaxation p.ownNames routine box).run b).2

theorem Serves.ownShift (hb : p.Serves routine b) : b.Holds (p.OwnShift routine) := by
  induction hb with
  | empty => exact Builder.holds_empty
  | build _ box ih =>
      obtain ⟨_, b', hrun, hb', -⟩ := keeps_ownShift box _ ih
      rw [hrun]
      exact hb'

/-- A builder that a problem has to itself makes the relaxations that are made without one. -/
theorem Serves.buildRelaxation_eq (hb : p.Serves routine b) (box : Box ℝ p.stored) :
    ((p.buildRelaxation p.ownNames routine box).run b).1 =
      p.relaxation? routine (p.restrictBox box) := by
  obtain ⟨c, b', hrun, -, hc⟩ := keeps_ownShift box b hb.ownShift
  rw [hrun, hc]

end Problem

/-! ## Builders that know all the shifts of a problem -/

def Builder.Knows (key : ShiftKey) (b : Builder ℝ) : Prop :=
  (b.shift? key).isSome = true

theorem Builder.Knows.keep {key : ShiftKey} (hb : b.Knows key) (other : ShiftKey)
    (bound : SpectralBound ℝ) : (b.keep other bound).Knows key := by
  unfold Knows Builder.shift? Builder.keep at *
  rw [List.lookup_cons]
  split
  · rfl
  · exact hb

theorem Builder.knows_keep (key : ShiftKey) (b : Builder ℝ) (bound : SpectralBound ℝ) :
    (b.keep key bound).Knows key := by
  simp [Knows, Builder.shift?, Builder.keep]

namespace Building

open Builder

variable {n name : ℕ} {key : ShiftKey} {I J : Builder ℝ → Prop} {box : Box ℝ n}
  {q h : Quadratic ℝ n}

theorem keeps_shift_of_known {b₀ : Builder ℝ} {s : ℝ} (hs : b₀.shift? key = some s) :
    Keeps (· = b₀) (shift routine key q) (· = s) := by
  refine keeps_get.bind fun b hb ↦ ?_
  rw [hb, hs]
  exact keeps_pure rfl

theorem keeps_knows (key other : ShiftKey) (q : Quadratic ℝ n) :
    Keeps (Knows key) (shift routine other q) fun _ ↦ True := by
  refine keeps_get.bind fun b hb ↦ ?_
  cases b.shift? other with
  | some s => exact keeps_pure trivial
  | none => exact (leads_modify fun b hb ↦ hb.keep other _).bind fun _ _ ↦ keeps_pure trivial

theorem leads_shift (key : ShiftKey) (q : Quadratic ℝ n) :
    Leads (fun _ ↦ True) (shift routine key q) (Knows key) fun _ ↦ True := by
  intro b _
  have hshift : Leads (· = b) (shift routine key q) (Knows key) fun _ ↦ True := by
    refine keeps_get.bind fun b' hb' ↦ ?_
    rw [hb']
    cases hb : b.shift? key with
    | some s =>
        refine leads_pure (fun b' hb' ↦ ?_) trivial
        rw [hb', Knows, hb]
        rfl
    | none => exact (leads_modify fun b _ ↦ knows_keep key b _).bind fun _ _ ↦ keeps_pure trivial
  exact hshift b rfl

/-- Whatever shift is taken, the invariant is kept. -/
def KeepsShifts (routine : EigenRoutine ℝ) (n : ℕ) (I : Builder ℝ → Prop) : Prop :=
  ∀ key (q : Quadratic ℝ n), Keeps I (shift routine key q) fun _ ↦ True

theorem keepsShifts_true : KeepsShifts routine n fun _ ↦ True :=
  fun key q ↦ (leads_shift key q).imp (fun _ _ ↦ trivial) fun _ ↦ id

theorem leads_under_of (h : Leads I (shift routine ⟨name, false⟩ q) J fun _ ↦ True) :
    Leads I (under routine (·.lowered? box ·) name q) J fun _ ↦ True :=
  leads_under h fun _ _ ↦ trivial

theorem leads_underBoth_of (habove : Leads I (shift routine ⟨name, false⟩ h) J fun _ ↦ True)
    (hbelow : Leads J (shift routine ⟨name, true⟩ h) K fun _ ↦ True) :
    Leads I (underBoth routine (·.lowered? box ·) name h) K fun _ ↦ True :=
  (leads_underBoth (P := fun _ ↦ True) (Q := fun _ ↦ True) habove hbelow (fun _ _ ↦ trivial)
    fun _ _ ↦ trivial).imp (fun _ ↦ id) fun _ _ ↦ trivial

end Building

namespace Problem

variable {key : ShiftKey} {q : Quadratic ℝ p.size}

open Building in
/-- A relaxation leaves a builder that knows each of the shifts it takes. -/
theorem TakesShift.leads_knows (hkey : p.TakesShift key q) (box : Box ℝ p.stored) :
    Leads (fun _ ↦ True) (p.buildRelaxation p.ownNames routine box) (Builder.Knows key)
      fun _ ↦ True := by
  let lower : Lowering ℝ p.size := (·.lowered? (p.restrictBox box) ·)
  have hunder {I} (hI : KeepsShifts routine p.size I) (name : ℕ) (q : Quadratic ℝ p.size) :
      Keeps I (under routine lower name q) fun _ ↦ True :=
    leads_under_of (hI _ _)
  have hboth {I} (hI : KeepsShifts routine p.size I) (name : ℕ) (h : Quadratic ℝ p.size) :
      Keeps I (underBoth routine lower name h) fun _ ↦ True :=
    leads_underBoth_of (hI _ _) (hI _ _)
  have htrue : KeepsShifts routine p.size fun _ ↦ True := keepsShifts_true
  have hknows : KeepsShifts routine p.size (Builder.Knows key) := keeps_knows key
  have hall : Leads (fun _ ↦ True) (p.underAll p.ownNames routine lower) (Builder.Knows key)
      fun _ ↦ True := by
    cases hkey with
    | objective =>
        refine (leads_under_of (leads_shift _ _)).bind fun objective _ ↦ ?_
        refine (keeps_mapM (R := fun _ _ ↦ True) fun i _ ↦ hunder hknows _ _).bind fun _ _ ↦ ?_
        refine (keeps_mapM (R := fun _ _ ↦ True) fun i _ ↦ hboth hknows _ _).bind fun _ _ ↦ ?_
        exact keeps_pure trivial
    | @constraint j _ hg =>
        have hmem : (q, j) ∈ p.constraints.zipIdx := List.mem_zipIdx_iff_getElem?.mpr hg
        refine (hunder htrue _ _).bind fun objective _ ↦ ?_
        refine (leads_mapM hmem (leads_under_of (leads_shift _ _)) (fun i ↦ hunder htrue _ _)
          fun i ↦ hunder hknows _ _).bind fun _ _ ↦ ?_
        refine (keeps_mapM (R := fun _ _ ↦ True) fun i _ ↦ hboth hknows _ _).bind fun _ _ ↦ ?_
        exact keeps_pure trivial
    | @equality j _ hh negated =>
        have hmem : (q, j) ∈ p.equalities.zipIdx := List.mem_zipIdx_iff_getElem?.mpr hh
        have hleads : Leads (fun _ ↦ True) (underBoth routine lower (p.ownNames.equality j) q)
            (Builder.Knows ⟨p.ownNames.equality j, negated⟩) fun _ ↦ True := by
          cases negated with
          | false => exact leads_underBoth_of (leads_shift _ _) (hknows _ _)
          | true => exact leads_underBoth_of (htrue _ _) (leads_shift _ _)
        refine (hunder htrue _ _).bind fun objective _ ↦ ?_
        refine (keeps_mapM (R := fun _ _ ↦ True) fun i _ ↦ hunder htrue _ _).bind fun _ _ ↦ ?_
        refine (leads_mapM hmem hleads (fun i ↦ hboth htrue _ _) fun i ↦ hboth hknows _ _).bind
          fun _ _ ↦ ?_
        exact keeps_pure trivial
  exact hall.bind fun _ _ ↦ keeps_pure trivial

/-- The builder that is left by a relaxation of the problem makes any other one, and stays as it
is. -/
theorem Serves.buildRelaxation_again (hb : p.Serves routine b) (box box' : Box ℝ p.stored) :
    (p.buildRelaxation p.ownNames routine box').run
        ((p.buildRelaxation p.ownNames routine box).run b).2 =
      (p.relaxation? routine (p.restrictBox box'),
        ((p.buildRelaxation p.ownNames routine box).run b).2) := by
  have hown := (hb.build box).ownShift
  generalize hleft : ((p.buildRelaxation p.ownNames routine box).run b).2 = left at hown ⊢
  have hshifts (key : ShiftKey) (q : Quadratic ℝ p.size) (hkey : p.TakesShift key q) :
      Building.Keeps (· = left) (Building.shift routine key q)
        (· = (q.signedBound routine key.negated).shift) := by
    obtain ⟨_, b', hrun, hknows, -⟩ := hkey.leads_knows box b trivial
    rw [hrun] at hleft
    obtain ⟨s, hs⟩ := Option.isSome_iff_exists.mp hknows
    rw [show b' = left from hleft] at hs
    exact (Building.keeps_shift_of_known hs).imp (fun _ ↦ id)
      fun _ hs' ↦ hs'.trans (hown.shift? hs q hkey.named?_eq)
  obtain ⟨c, b', hrun, rfl, hc⟩ := keeps_relaxation box' hshifts left rfl
  rw [hrun, hc]

end Problem

end GlobalQcqp
