/-!
# Steps that may be refused

A sequence of steps succeeds when each of them does, and hands on the value of the last one.
-/

namespace GlobalQcqp

variable {ε α β : Type}

theorem bind_eq_ok_iff {x : Except ε α} {f : α → Except ε β} {b : β} :
    (x >>= f) = .ok b ↔ ∃ a, x = .ok a ∧ f a = .ok b := by
  cases x with
  | error e => simp [bind, Except.bind]
  | ok a => simp [bind, Except.bind]

theorem bind_eq_error_iff {x : Except ε α} {f : α → Except ε β} {e : ε} :
    (x >>= f) = .error e ↔ x = .error e ∨ ∃ a, x = .ok a ∧ f a = .error e := by
  cases x with
  | error e => simp [bind, Except.bind]
  | ok a => simp [bind, Except.bind]

@[simp] theorem ok_bind (a : α) (f : α → Except ε β) : (Except.ok a >>= f) = f a :=
  rfl

@[simp] theorem pure_eq_ok (a : α) : (pure a : Except ε α) = .ok a :=
  rfl

theorem map_eq_ok_iff {x : Except ε α} {f : α → β} {b : β} :
    x.map f = .ok b ↔ ∃ a, x = .ok a ∧ f a = b := by
  cases x with
  | error e => simp [Except.map]
  | ok a => simp [Except.map]

theorem map_eq_error_iff {x : Except ε α} {f : α → β} {e : ε} :
    x.map f = .error e ↔ x = .error e := by
  cases x with
  | error e => simp [Except.map]
  | ok a => simp [Except.map]

/-- Two sequences of steps that agree step by step, up to the values they hand on, agree. -/
theorem map_bind_eq {α' β' : Type} {x : Except ε α} {y : Except ε α'} {f : α → Except ε β}
    {f' : α' → Except ε β'} {g : α → α'} {g' : β → β'} (hx : x.map g = y)
    (hf : ∀ a, x = .ok a → (f a).map g' = f' (g a)) : (x >>= f).map g' = y >>= f' := by
  subst hx
  cases x with
  | error e => rfl
  | ok a => exact hf a rfl

def refusal? : Except ε α → Option ε
  | .ok _ => none
  | .error e => some e

theorem refusal?_eq_some_iff {x : Except ε α} {e : ε} : refusal? x = some e ↔ x = .error e := by
  cases x with
  | ok a => simp [refusal?]
  | error e => simp [refusal?]

def Succeeds (x : Except ε α) : Prop :=
  ∃ a, x = .ok a

theorem succeeds_iff {x : Except ε α} : Succeeds x ↔ ∀ e, x ≠ .error e := by
  cases x with
  | error e => simp [Succeeds]
  | ok a => simp [Succeeds]

theorem succeeds_ok (a : α) : Succeeds (.ok a : Except ε α) :=
  ⟨a, rfl⟩

theorem mapM_eq_ok {f : α → Except ε β} {g : α → β} (h : ∀ a, f a = .ok (g a)) (l : List α) :
    l.mapM f = .ok (l.map g) := by
  have hf : f = fun a ↦ pure (g a) := funext h
  rw [hf, List.mapM_pure]
  rfl

theorem filterM_eq_ok {f : α → Except ε Bool} {g : α → Bool} {l : List α}
    (h : ∀ a ∈ l, f a = .ok (g a)) : l.filterM f = .ok (l.filter g) := by
  have haux : ∀ done : List α, l.filterAuxM f done = .ok ((l.filter g).reverse ++ done) := by
    intro done
    induction l generalizing done with
    | nil => rfl
    | cons a l ih =>
        rw [List.filterAuxM, h a List.mem_cons_self, ok_bind,
          ih fun b hb ↦ h b (List.mem_cons_of_mem a hb)]
        cases hg : g a <;> simp [hg]
  rw [List.filterM, haux, ok_bind, List.append_nil, List.reverse_reverse, pure_eq_ok]

/-- A fold whose steps keep a property does not stop. -/
theorem exists_foldlM_eq_some {f : β → α → Option β} {P : β → Prop} {l : List α}
    (hstep : ∀ b, P b → ∀ a ∈ l, ∃ b', f b a = some b' ∧ P b') {b : β} (hb : P b) :
    ∃ b', l.foldlM f b = some b' ∧ P b' := by
  induction l generalizing b with
  | nil => exact ⟨b, rfl, hb⟩
  | cons a l ih =>
      obtain ⟨next, hnext, hP⟩ := hstep b hb a List.mem_cons_self
      rw [List.foldlM_cons, hnext]
      exact ih (fun b hb a' ha' ↦ hstep b hb a' (List.mem_cons_of_mem a ha')) hP

/-- What each step of a fold keeps, its result has. -/
theorem of_foldlM_eq_some {f : β → α → Option β} {P : β → Prop} {l : List α}
    (hstep : ∀ b, P b → ∀ a ∈ l, ∀ b', f b a = some b' → P b') {b b' : β} (hb : P b)
    (h : l.foldlM f b = some b') : P b' := by
  induction l generalizing b with
  | nil =>
      cases h
      exact hb
  | cons a l ih =>
      rw [List.foldlM_cons] at h
      obtain ⟨next, hnext, hrest⟩ := Option.bind_eq_some_iff.mp h
      apply ih
      · intro c hc a' ha'
        exact hstep c hc a' (List.mem_cons_of_mem a ha')
      · exact hstep b hb a List.mem_cons_self next hnext
      · exact hrest

end GlobalQcqp
