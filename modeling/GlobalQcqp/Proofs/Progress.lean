import GlobalQcqp.Progress
import GlobalQcqp.Proofs.OrderedScalar
/-!
# Progress under a sequence of offers

Of a sequence of offers those count whose value is below every value that counted before.  The last
of them leaves its value, but the point and the number of updates are those of the offers among them
whose point could be read.  So the value and the point of a search belong together unless the last
offer that counted could not be read.
-/

namespace GlobalQcqp.Progress

variable {α β π : Type} [Scalar α] [Scalar β] [Extended α β]

/-- The state with a better value, its point and one more update. -/
def adopt (s : Progress β π) (value : β) (x : π) : Progress β π :=
  { s with
    incumbentValue := value
    incumbent := some x
    incumbentUpdates := s.incumbentUpdates + 1 }

/-- Infinity stands for the value exactly while there is no point. -/
def IsPaired (s : Progress β π) : Prop :=
  s.incumbentValue = posInf ↔ s.incumbent = none

/-! ## One offer -/

section Offer

variable {s : Progress β π} {value : β}

theorem offer_some_of_lt (hlt : value < s.incumbentValue) (x : π) :
    s.offer value (some x) = (s.adopt value x, .accepted) :=
  if_pos hlt

theorem offer_none_of_lt (hlt : value < s.incumbentValue) :
    s.offer value none = ({ s with incumbentValue := value }, .unreadable) :=
  if_pos hlt

theorem offer_of_not_lt (hlt : ¬ value < s.incumbentValue) (point : Option π) :
    s.offer value point = (s, .rejected) :=
  if_neg hlt

theorem offer_whole_iff [OrderedScalar β] {point : Option π} :
    ((s.offer value point).1 = s ∨
        ∃ x, point = some x ∧ s.offer value point = (s.adopt value x, .accepted)) ↔
      ¬ (value < s.incumbentValue ∧ point = none) := by
  by_cases hlt : value < s.incumbentValue
  · cases point with
    | none =>
        -- the value has changed, since it was below the one it replaced
        have hchanged : { s with incumbentValue := value } ≠ s := fun heq ↦ by
          rw [← heq] at hlt
          exact OrderedScalar.lt_irrefl value hlt
        simp [offer_none_of_lt hlt, hlt, hchanged]
    | some x => simp [offer_some_of_lt hlt]
  · simp [offer_of_not_lt hlt, hlt]

end Offer

/-! ## A sequence of offers -/

/-- The state after the offers, whatever becomes of each. -/
def after (s : Progress β π) (calls : List (β × Option π)) : Progress β π :=
  calls.foldl (fun s call ↦ (s.offer call.1 call.2).1) s

/-- The offers below the given value and below those that come before them here. -/
def improving (value : β) : List (β × Option π) → List (β × Option π)
  | [] => []
  | call :: calls =>
    if call.1 < value then call :: improving call.1 calls else improving value calls

theorem after_cons (s : Progress β π) (call : β × Option π) (calls : List (β × Option π)) :
    s.after (call :: calls) = ((s.offer call.1 call.2).1).after calls :=
  rfl

theorem improving_sublist (value : β) (calls : List (β × Option π)) :
    (improving value calls).Sublist calls := by
  induction calls generalizing value with
  | nil => exact List.Sublist.slnil
  | cons call calls ih =>
      rw [improving]
      split
      · exact (ih call.1).cons_cons call
      · exact (ih value).cons call

/-- The offers that count leave the value of the last one, and the rest of those that could be
read. -/
theorem after_eq (s : Progress β π) (calls : List (β × Option π)) :
    let taken := improving s.incumbentValue calls
    s.after calls =
      { s with
        incumbentValue := (taken.getLast?.map Prod.fst).getD s.incumbentValue
        incumbent := (taken.filterMap Prod.snd).getLast?.or s.incumbent
        incumbentUpdates := s.incumbentUpdates + (taken.filterMap Prod.snd).length } := by
  induction calls generalizing s with
  | nil => rfl
  | cons call calls ih =>
      obtain ⟨value, point⟩ := call
      rw [after_cons]
      by_cases hlt : value < s.incumbentValue
      · have htaken : improving s.incumbentValue ((value, point) :: calls) =
            (value, point) :: improving value calls := if_pos hlt
        have hvalue : (((value, point) :: improving value calls).getLast?.map Prod.fst).getD
              s.incumbentValue = ((improving value calls).getLast?.map Prod.fst).getD value := by
          rw [List.getLast?_cons]
          cases (improving value calls).getLast? <;> rfl
        simp only [htaken, hvalue]
        cases point with
        | none =>
            rw [offer_none_of_lt hlt, ih]
            rfl
        | some x =>
            rw [offer_some_of_lt hlt, ih]
            have hread : ((value, some x) :: improving value calls).filterMap Prod.snd =
                x :: (improving value calls).filterMap Prod.snd := rfl
            have hpoint : ((improving value calls).filterMap Prod.snd).getLast?.or (some x) =
                (x :: (improving value calls).filterMap Prod.snd).getLast?.or s.incumbent := by
              rw [List.getLast?_cons]
              cases ((improving value calls).filterMap Prod.snd).getLast? <;> rfl
            simp only [adopt, hpoint, hread, List.length_cons, Nat.add_assoc, Nat.add_comm 1]
      · have htaken : improving s.incumbentValue ((value, point) :: calls) =
            improving s.incumbentValue calls := if_neg hlt
        rw [offer_of_not_lt hlt, ih, htaken]

theorem lt_of_mem_improving [OrderedScalar β] {value : β} {calls : List (β × Option π)}
    {call : β × Option π} (hcall : call ∈ improving value calls) : call.1 < value := by
  induction calls generalizing value with
  | nil => cases hcall
  | cons next calls ih =>
      rw [improving] at hcall
      split at hcall
      · rename_i hlt
        rcases List.mem_cons.mp hcall with rfl | hlater
        · exact hlt
        · exact Scalar.lt_trans (ih hlater) hlt
      · exact ih hcall

/-- No value counts twice. -/
theorem pairwise_improving [OrderedScalar β] (value : β) (calls : List (β × Option π)) :
    (improving value calls).Pairwise (fun call later ↦ later.1 < call.1) := by
  induction calls generalizing value with
  | nil => exact List.Pairwise.nil
  | cons call calls ih =>
      rw [improving]
      split
      · exact (ih call.1).cons fun _ hlater ↦ lt_of_mem_improving hlater
      · exact ih value

/-- The last value that counts belongs to no other offer. -/
theorem eq_of_mem_improving [OrderedScalar β] {v value : β} {calls earlier : List (β × Option π)}
    {point other : Option π} (htaken : improving v calls = earlier ++ [(value, point)])
    (hmem : (value, other) ∈ improving v calls) : other = point := by
  have hdecreasing := pairwise_improving v calls
  rw [htaken] at hdecreasing hmem
  rcases List.mem_append.mp hmem with hearlier | hlast
  · have hbelow := (List.pairwise_append.mp hdecreasing).2.2 _ hearlier _ List.mem_cons_self
    exact absurd hbelow (OrderedScalar.lt_irrefl value)
  · exact (Prod.mk.inj (List.mem_singleton.mp hlast)).2

/-! ## Value and point together -/

section Paired

variable {s : Progress β π} {calls : List (β × Option π)}

theorem after_of_nil (hnil : improving s.incumbentValue calls = []) : s.after calls = s := by
  rw [after_eq, hnil]
  rfl

theorem incumbentValue_after_of_concat {earlier : List (β × Option π)} {value : β}
    {point : Option π} (htaken : improving s.incumbentValue calls = earlier ++ [(value, point)]) :
    (s.after calls).incumbentValue = value := by
  rw [after_eq, htaken]
  simp

theorem incumbent_after_of_concat {earlier : List (β × Option π)} {value : β} {x : π}
    (htaken : improving s.incumbentValue calls = earlier ++ [(value, some x)]) :
    (s.after calls).incumbent = some x := by
  rw [after_eq, htaken]
  simp

variable [OrderedScalar β] [LawfulExtended α β]

theorem ne_posInf_of_lt {a b : β} (hab : a < b) : a ≠ posInf := by
  rintro rfl
  have hb := Scalar.isUndefined_of_lt hab
  exact Scalar.not_lt_of_le (LawfulExtended.le_posInf hb) hab

/-- The value and the point that are left were offered together or were there before, unless the
last offer that counted could not be read. -/
theorem after_paired_iff (hs : s.IsPaired) :
    ((s.after calls).IsPaired ∧
        ∀ x, (s.after calls).incumbent = some x →
          ((s.after calls).incumbentValue, some x) ∈
            (s.incumbentValue, s.incumbent) :: improving s.incumbentValue calls) ↔
      ∀ call ∈ (improving s.incumbentValue calls).getLast?, call.2 ≠ none := by
  rcases List.eq_nil_or_concat' (improving s.incumbentValue calls) with
    hnil | ⟨earlier, ⟨value, point⟩, htaken⟩
  · rw [after_of_nil hnil, hnil]
    refine iff_of_true ⟨hs, fun x hx ↦ ?_⟩ (by simp)
    rw [hx]
    exact List.mem_cons_self
  have hmem : (value, point) ∈ improving s.incumbentValue calls := by
    rw [htaken]
    exact List.mem_concat_self
  have hlt : value < s.incumbentValue := lt_of_mem_improving hmem
  have hvalue := incumbentValue_after_of_concat htaken
  have hinfinite : value ≠ posInf := ne_posInf_of_lt hlt
  rw [IsPaired, hvalue]
  cases point with
  | some x =>
      have hpoint := incumbent_after_of_concat htaken
      rw [htaken, hpoint]
      refine iff_of_true ⟨by simp [hinfinite], ?_⟩ (by simp)
      rintro y ⟨⟩
      simp
  | none =>
      refine iff_of_false ?_ (by simp [htaken])
      rintro ⟨hpaired, hmem⟩
      obtain ⟨x, hx⟩ := Option.ne_none_iff_exists'.mp (hinfinite ∘ hpaired.mpr)
      rcases List.mem_cons.mp (hmem x hx) with hfirst | hother
      · rw [(Prod.mk.inj hfirst).1] at hlt
        exact OrderedScalar.lt_irrefl _ hlt
      · cases eq_of_mem_improving htaken hother

/-- An offer is taken as a whole or undone as a whole, and value and point stay together over any
sequence of offers, exactly unless a better value comes with a point that cannot be read. -/
theorem offers_whole_unless_unreadable (s : Progress β π) :
    (∀ value point,
      ((s.offer value point).1 = s ∨
          ∃ x, point = some x ∧ s.offer value point = (s.adopt value x, .accepted)) ↔
        ¬ (value < s.incumbentValue ∧ point = none)) ∧
    (∀ value, value < s.incumbentValue →
      s.offer value none = ({ s with incumbentValue := value }, .unreadable)) ∧
    ∀ calls,
      let taken := improving s.incumbentValue calls
      taken.Sublist calls ∧ s.after calls =
        { s with
          incumbentValue := (taken.getLast?.map Prod.fst).getD s.incumbentValue
          incumbent := (taken.filterMap Prod.snd).getLast?.or s.incumbent
          incumbentUpdates := s.incumbentUpdates + (taken.filterMap Prod.snd).length } ∧
      (s.IsPaired →
        (((s.after calls).IsPaired ∧
            ∀ x, (s.after calls).incumbent = some x →
              ((s.after calls).incumbentValue, some x) ∈
                (s.incumbentValue, s.incumbent) :: taken) ↔
          ∀ call ∈ taken.getLast?, call.2 ≠ none)) :=
  ⟨fun _ _ ↦ offer_whole_iff, fun _ hlt ↦ offer_none_of_lt hlt,
    fun calls ↦ ⟨improving_sublist _ calls, after_eq s calls, fun hs ↦ after_paired_iff hs⟩⟩

end Paired

/-- The value of the offer that could not be read stands beside the point of the first offer, and
turns the third offer away. -/
theorem start_after_unreadable :
    let s : Progress Float ℕ := start
    let calls := [(5, some 1), (3, none), (4, some 2)]
    s.IsPaired ∧ s.after calls =
        { s with incumbentValue := 3, incumbent := some 1, incumbentUpdates := 1 } ∧
      ¬ ((s.after calls).IsPaired ∧ ∀ x, (s.after calls).incumbent = some x →
        ((s.after calls).incumbentValue, some x) ∈
          (s.incumbentValue, s.incumbent) :: improving s.incumbentValue calls) := by
  intro s calls
  have htaken : improving s.incumbentValue calls = [(5, some 1), (3, none)] := by
    have h₁ : (5 : Float) < s.incumbentValue := by decide
    have h₂ : (3 : Float) < 5 := by decide
    have h₃ : ¬ (4 : Float) < 3 := by decide
    simp [calls, improving, h₁, h₂, h₃]
  have hs : s.IsPaired := iff_of_true rfl rfl
  obtain ⟨-, hafter, hpaired⟩ := (offers_whole_unless_unreadable s).2.2 calls
  refine ⟨hs, ?_, ?_⟩
  · rw [hafter, htaken]
    rfl
  · rw [hpaired hs, htaken]
    simp

end GlobalQcqp.Progress
