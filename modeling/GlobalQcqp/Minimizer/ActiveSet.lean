import GlobalQcqp.Minimizer.Triangular
/-!
# Convex quadratic programs

Minimizes `1/2 x^T L L^T x + a^T x` over the points at which every row `n^T x + b` is nonnegative,
or zero where that is asked for.  The search starts at the unconstrained minimum and takes in one
violated row at a time.  While a row is taken in, the multipliers of the held rows may fall; a row
whose multiplier reaches zero is let go.  The value never falls, so no set of held rows comes back.
-/

namespace GlobalQcqp

variable {m : Nat}

structure LinearRow (m : Nat) where
  normal : Vector Float m
  offset : Float
  isZero : Bool

namespace LinearRow

def value (r : LinearRow m) (x : Vector Float m) : Float :=
  dot r.normal x + r.offset

def neg (r : LinearRow m) : LinearRow m :=
  { r with normal := r.normal.map (- ·), offset := -r.offset }

/-- The length of the normal, one for a row that has none. -/
def scale (r : LinearRow m) : Float :=
  let length := norm r.normal
  if 0.0 < length then length else 1.0

def scaled (r : LinearRow m) : LinearRow m :=
  { r with normal := r.normal.map (· / r.scale), offset := r.offset / r.scale }

def violation (r : LinearRow m) (x : Vector Float m) : Float :=
  let v := r.value x
  if v < 0.0 then -v else if r.isZero then v else 0.0

/-- Violations up to this are left alone. -/
def slack (r : LinearRow m) : Float :=
  1e-12 * (1.0 + r.offset.abs)

end LinearRow

namespace ActiveSet

/-- A row that holds with equality at the current point. It was taken in as it is, or else as its
negative. -/
structure Held (m : Nat) where
  index : Nat
  row : LinearRow m
  isNegated : Bool
  /-- The normal in the coordinates of the factor. -/
  direction : Vector Float m
  multiplier : Float

structure State (m : Nat) where
  point : Vector Float m
  held : List (Held m)

/-- Moves the multipliers of the held rows against the given rates. -/
def shiftMultipliers (held : List (Held m)) (rates : Array Float) (t : Float) : List (Held m) :=
  held.zipIdx.map fun (h, k) ↦ { h with multiplier := h.multiplier - t * rates.getD k 0.0 }

/-- The first step at which the multiplier of a held row reaches zero, with the place of that
row. -/
def firstRelease? (held : List (Held m)) (rates : Array Float) : Option (Float × Nat) :=
  held.zipIdx.foldl
    (fun best (h, k) ↦
      let rate := rates.getD k 0.0
      if h.row.isZero || !decide (1e-14 < rate) then best
      else
        let t := h.multiplier / rate
        match best with
        | none => some (t, k)
        | some (t', _) => if t < t' then some (t, k) else best)
    none

/-- Takes in a violated row, letting go of held rows where needed; none if the rows exclude each
other. -/
def takeIn (L : SquareMatrix Float m) (new : Held m) (s : State m) : Nat → Option (State m)
  | 0 => none
  | left + 1 =>
    let pivots := Triangular.pivotsOf (s.held.map (·.direction))
    let (cs, rest) := Triangular.project pivots new.direction
    let rates := Triangular.combine pivots cs
    let gain := dot rest rest
    let full? :=
      if gain ≤ 1e-20 * (1.0 + dot new.direction new.direction) then none
      else some (-(new.row.value s.point) / gain)
    let move (t : Float) : Vector Float m :=
      addMul s.point t (Triangular.solveTransposed L rest)
    let close (t : Float) : Option (State m) :=
      some ⟨move t, shiftMultipliers s.held rates t ++
        [{ new with multiplier := new.multiplier + t }]⟩
    let release (t : Float) (k : Nat) (point : Vector Float m) : Option (State m) :=
      takeIn L { new with multiplier := new.multiplier + t }
        ⟨point, (shiftMultipliers s.held rates t).eraseIdx k⟩ left
    match full?, firstRelease? s.held rates with
    | none, none => none
    | none, some (t, k) => release t k s.point
    | some full, none => close full
    | some full, some (t, k) => if t < full then release t k (move t) else close full

def next? (rows : List (LinearRow m)) (s : State m) : Option (LinearRow m × Nat) :=
  (rows.zipIdx.filter fun (r, i) ↦
      !(s.held.any (·.index == i)) && decide (r.slack < r.violation s.point)).foldl
    (fun best (r, i) ↦
      match best with
      | none => some (r, i)
      | some (b, _) => if b.violation s.point < r.violation s.point then some (r, i) else best)
    none

/-- A row before it is taken in, turned so that its value is negative. -/
def turned (L : SquareMatrix Float m) (x : Vector Float m) (r : LinearRow m) (i : Nat) : Held m :=
  let isNegated := decide (0.0 < r.value x)
  let row := if isNegated then r.neg else r
  ⟨i, row, isNegated, Triangular.solve L row.normal, 0.0⟩

/-- Takes in rows until none is violated. -/
def search (L : SquareMatrix Float m) (rows : List (LinearRow m)) (s : State m) :
    Nat → Option (State m)
  | 0 => none
  | left + 1 =>
    match next? rows s with
    | none => some s
    | some (r, i) =>
      match takeIn L (turned L s.point r i) s (s.held.length + 1) with
      | none => none
      | some s => search L rows s left

/-- The minimum with the multipliers of the rows it holds; none if the rows exclude each other. Rows
are compared after their normals have been given one length, to which the multipliers refer at
first. -/
def minimum? (L : SquareMatrix Float m) (a : Vector Float m) (rows : List (LinearRow m)) :
    Option (State m) :=
  let start := Triangular.solveTransposed L (Triangular.solve L (a.map (- ·)))
  let scales := (rows.map LinearRow.scale).toArray
  (search L (rows.map LinearRow.scaled) ⟨start, []⟩ (20 * (rows.length + 1))).map fun s ↦
    { s with held := s.held.map fun h ↦
        { h with multiplier := h.multiplier / scales.getD h.index 1.0 } }

def State.multiplier (s : State m) (i : Nat) : Float :=
  match s.held.find? (·.index == i) with
  | some h => if h.isNegated then -h.multiplier else h.multiplier
  | none => 0.0

end ActiveSet

end GlobalQcqp
