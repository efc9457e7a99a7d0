import GlobalQcqp.Node.Draft
import GlobalQcqp.Proofs.MachineOrder
/-!
# Drafts with numbers

A draft has numbers when its priority is a defined machine number and its identifier and depth are
integers.  Such drafts always compare: best first by priority and number, deepest first by depth
and number.  Both orders are those of a key in a linear order.
-/

namespace GlobalQcqp

namespace Setting

theorem isLess_of_numeric {a b : Setting} {m n : Int ⊕ Float} (ha : a.numeric? = some m)
    (hb : b.numeric? = some n) : a.isLess b = .ok (compareNumbers m n == some .lt) := by
  cases a <;> cases b <;> simp_all [isLess, compareNumeric?, numeric?]

theorem equals_of_numeric {a b : Setting} {m n : Int ⊕ Float} (ha : a.numeric? = some m)
    (hb : b.numeric? = some n) : a.equals b = (compareNumbers m n == some .eq) := by
  cases a <;> cases b <;> simp_all [equals, compareNumeric?, numeric?]

theorem equals_int (m n : Int) : (int m).equals (int n) = decide (m = n) := by
  rw [equals_of_numeric rfl rfl, Bool.eq_iff_iff]
  simp [compareNumbers]

theorem isLess_int (m n : Int) : (int m).isLess (int n) = .ok (decide (m < n)) := by
  have h : (compareNumbers (.inl m) (.inl n) == some .lt) = decide (m < n) := by
    rw [Bool.eq_iff_iff]
    simp [compareNumbers, compare_lt_iff_lt]
  rw [isLess_of_numeric rfl rfl, h]

theorem isLess_real (x y : Float) : (real x).isLess (real y) = .ok (decide (x < y)) := by
  have h : (compareNumbers (.inr x) (.inr y) == some .lt) = decide (x < y) := by
    by_cases hxy : x < y
    · simp [compareNumbers, hxy]
    · by_cases hyx : y < x
      · simp [compareNumbers, hxy, hyx]
      · by_cases heq : (x == y) = true <;> simp [compareNumbers, hxy, hyx, heq]
  rw [isLess_of_numeric rfl rfl, h]

theorem equals_real {x y : Float} (hx : Scalar.isUndefined x = false)
    (hy : Scalar.isUndefined y = false) :
    (real x).equals (real y) = decide (MachineRank.of x = MachineRank.of y) := by
  rw [equals_of_numeric rfl rfl]
  have hlt := MachineRank.lt_iff hx hy
  have hgt := MachineRank.lt_iff hy hx
  have heq := MachineRank.beq_iff hx hy
  rcases lt_trichotomy (MachineRank.of x) (MachineRank.of y) with h | h | h
  · simp [compareNumbers, hlt.mpr h, h.ne]
  · have hxy : ¬x < y := fun hxy ↦ (hlt.mp hxy).ne h
    have hyx : ¬y < x := fun hyx ↦ (hgt.mp hyx).ne' h
    simp [compareNumbers, hxy, hyx, heq.mpr h, h]
  · have hxy : ¬x < y := fun hxy ↦ (hlt.mp hxy).not_gt h
    simp [compareNumbers, hxy, hgt.mpr h, h.ne']

end Setting

namespace NodeDraft

variable {a b d : NodeDraft}

def value (d : NodeDraft) : Float :=
  match d.priority with
  | .real x => x
  | _ => 0

def number (d : NodeDraft) : Int :=
  match d.id with
  | .int n => n
  | _ => 0

def level (d : NodeDraft) : Int :=
  match d.depth with
  | .int n => n
  | _ => 0

structure HasNumbers (d : NodeDraft) : Prop where
  priority_eq : d.priority = .real d.value
  isUndefined_value : Scalar.isUndefined d.value = false
  id_eq : d.id = .int d.number
  depth_eq : d.depth = .int d.level

/-- Smaller priority, or equal priority and smaller number. -/
def LeadsBest (a b : NodeDraft) : Prop :=
  a.value < b.value ∨ (a.value == b.value) = true ∧ a.number < b.number

/-- Deeper, or equally deep and of smaller number. -/
def LeadsDeepest (a b : NodeDraft) : Prop :=
  b.level < a.level ∨ a.level = b.level ∧ a.number < b.number

def bestKey (d : NodeDraft) : MachineRank ×ₗ ℤ :=
  toLex (.of d.value, d.number)

def deepestKey (d : NodeDraft) : ℤ ×ₗ ℤ :=
  toLex (-d.level, d.number)

theorem bestKey_lt_iff (ha : a.HasNumbers) (hb : b.HasNumbers) :
    a.bestKey < b.bestKey ↔ a.LeadsBest b := by
  rw [bestKey, bestKey, Prod.Lex.toLex_lt_toLex, LeadsBest,
    MachineRank.lt_iff ha.isUndefined_value hb.isUndefined_value,
    MachineRank.beq_iff ha.isUndefined_value hb.isUndefined_value]

theorem deepestKey_lt_iff : a.deepestKey < b.deepestKey ↔ a.LeadsDeepest b := by
  rw [deepestKey, deepestKey, Prod.Lex.toLex_lt_toLex, LeadsDeepest]
  omega

theorem HasNumbers.leadsBest (ha : a.HasNumbers) (hb : b.HasNumbers) (hne : a.number ≠ b.number)
    (hle : a.bestKey ≤ b.bestKey) : a.LeadsBest b := by
  apply (bestKey_lt_iff ha hb).mp
  apply lt_of_le_of_ne hle
  intro heq
  exact hne (congrArg (fun key ↦ (ofLex key).2) heq)

theorem HasNumbers.value_le (ha : a.HasNumbers) (hb : b.HasNumbers)
    (hle : a.bestKey ≤ b.bestKey) : a.value ≤ b.value := by
  apply (MachineRank.le_iff ha.isUndefined_value hb.isUndefined_value).mpr
  rcases Prod.Lex.toLex_le_toLex.mp hle with hlt | ⟨heq, -⟩
  · exact hlt.le
  · exact heq.le

theorem leadsDeepest_of_le (hne : a.number ≠ b.number) (hle : a.deepestKey ≤ b.deepestKey) :
    a.LeadsDeepest b := by
  apply deepestKey_lt_iff.mp
  apply lt_of_le_of_ne hle
  intro heq
  exact hne (congrArg (fun key ↦ (ofLex key).2) heq)

theorem isBefore_eq (ha : a.HasNumbers) (hb : b.HasNumbers) :
    a.isBefore b = .ok (decide (a.bestKey < b.bestKey)) := by
  have hkey : a.bestKey < b.bestKey ↔ MachineRank.of a.value < MachineRank.of b.value ∨
      MachineRank.of a.value = MachineRank.of b.value ∧ a.number < b.number :=
    Prod.Lex.toLex_lt_toLex
  rw [isBefore, ha.priority_eq, hb.priority_eq, ha.id_eq, hb.id_eq, Setting.isLess_real,
    Setting.equals_real ha.isUndefined_value hb.isUndefined_value, Setting.equals_int,
    Setting.isLess_int]
  by_cases hvalue : MachineRank.of a.value = MachineRank.of b.value
  · by_cases hnumber : a.number = b.number
    · simp [hkey, hvalue, hnumber]
    · simp [hkey, hvalue, hnumber]
  · simp [hkey, hvalue, MachineRank.lt_iff ha.isUndefined_value hb.isUndefined_value]

theorem isDeeper_eq (ha : a.HasNumbers) (hb : b.HasNumbers) :
    a.isDeeper b = .ok (decide (a.deepestKey < b.deepestKey)) := by
  rw [isDeeper, ha.depth_eq, hb.depth_eq, ha.id_eq, hb.id_eq, Setting.isLess_int,
    Setting.equals_int, Setting.isLess_int]
  simp only [deepestKey_lt_iff, LeadsDeepest]
  by_cases hdeeper : b.level < a.level
  · simp [hdeeper, bind, Except.bind, pure, Except.pure]
  · by_cases hlevel : a.level = b.level
    · simp [hlevel, bind, Except.bind]
    · simp [hdeeper, hlevel, bind, Except.bind, pure, Except.pure]

theorem HasNumbers.isLess_real (hd : d.HasNumbers) (t : Float) :
    d.priority.isLess (.real t) = .ok (decide (d.value < t)) := by
  rw [hd.priority_eq, Setting.isLess_real]

end NodeDraft

end GlobalQcqp
