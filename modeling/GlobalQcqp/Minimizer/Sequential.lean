import GlobalQcqp.Minimizer
import GlobalQcqp.Minimizer.ActiveSet
import GlobalQcqp.Setting.Entries
/-!
# Sequential quadratic programming

Each step minimizes a quadratic model of the Lagrangian under the linearized conditions, and then
searches along the step for a lower merit, which adds weighted violations to the objective.  The
model is kept positive definite by damped updates.  Where the linearized conditions exclude each
other, one more variable relaxes the violated ones.
-/

namespace GlobalQcqp.Sequential

variable {m : Nat}

/-! ## Local models -/

/-- A condition at a point. -/
structure Line (m : Nat) where
  relation : Relation
  value : Float
  gradient : Vector Float m

def miss (relation : Relation) (value : Float) : Float :=
  if value < 0.0 then -value
  else
    match relation with
    | .nonnegative => 0.0
    | .zero => value

def Line.miss (l : Line m) : Float :=
  Sequential.miss l.relation l.value

structure View (m : Nat) where
  point : Vector Float m
  value : Float
  gradient : Vector Float m
  lines : List (Line m)

def look (p : Program Float m) (x : Vector Float m) : View m where
  point := x
  value := p.objective.value x
  gradient := p.objective.gradient x
  lines := p.conditions.map fun c ↦ ⟨c.relation, c.function.value x, c.function.gradient x⟩

def View.misses (v : View m) : Float :=
  v.lines.foldl (fun t l ↦ t + l.miss) 0.0

def weightedMisses (weights : List Float) (misses : List Float) : Float :=
  (weights.zipWith (· * ·) misses).foldl (· + ·) 0.0

def merit (p : Program Float m) (weights : List Float) (x : Vector Float m) : Float :=
  p.objective.value x +
    weightedMisses weights (p.conditions.map fun c ↦ miss c.relation (c.function.value x))

def intoRanges (p : Program Float m) (x : Vector Float m) : Vector Float m :=
  Vector.ofFn fun i ↦
    match p.ranges[i] with
    | some side => Scalar.clamp side.lo side.hi x[i]
    | none => x[i]

/-- The rows that keep a step from `x` inside the ranges. -/
def rangeRows (p : Program Float m) (x : Vector Float m) : List (LinearRow m) :=
  (List.finRange m).flatMap fun i ↦
    match p.ranges[i] with
    | some side =>
      [⟨axis i 1.0, x[i] - side.lo, false⟩, ⟨axis i (-1.0), side.hi - x[i], false⟩]
    | none => []

def lineRows (lines : List (Line m)) : List (LinearRow m) :=
  lines.map fun l ↦ ⟨l.gradient, l.value, l.relation == .zero⟩

/-! ## Steps -/

structure Step (m : Nat) where
  direction : Vector Float m
  multipliers : List Float
  /-- The part of the violations that the step leaves as it is. -/
  relaxed : Float

/-- The step under the linearized conditions, if they do not exclude each other. -/
def plainStep? (L : SquareMatrix Float m) (p : Program Float m) (v : View m) : Option (Step m) :=
  (ActiveSet.minimum? L v.gradient (lineRows v.lines ++ rangeRows p v.point)).map fun s ↦
    ⟨s.point, (List.range v.lines.length).map s.multiplier, 0.0⟩

/-- The step under conditions relaxed by one more variable, which has the given weight. -/
def relaxedStep? (L : SquareMatrix Float m) (p : Program Float m) (v : View m) (weight : Float) :
    Option (Step m) :=
  let wide : SquareMatrix Float (m + 1) :=
    (L.map (·.push 0.0)).push (axis (Fin.last m) weight)
  let widen (r : LinearRow m) (slope : Float) : LinearRow (m + 1) :=
    { normal := r.normal.push slope, offset := r.offset, isZero := r.isZero }
  let rows := (lineRows v.lines).zipWith (fun r (l : Line m) ↦
    widen r (if l.miss == 0.0 then 0.0 else -l.value)) v.lines
  let sides := (rangeRows p v.point).map (widen · 0.0) ++
    [⟨axis (Fin.last m) 1.0, 0.0, false⟩, ⟨axis (Fin.last m) (-1.0), 1.0, false⟩]
  (ActiveSet.minimum? wide (v.gradient.push 0.0) (rows ++ sides)).map fun s ↦
    ⟨s.point.pop, (List.range v.lines.length).map s.multiplier, s.point[Fin.last m]⟩

/-- The weights of the relaxing variable, tried in order. -/
def relaxingWeights : List Float :=
  [1e2, 1e3, 1e4, 1e5, 1e6]

def step? (L : SquareMatrix Float m) (p : Program Float m) (v : View m) : Option (Step m) :=
  match plainStep? L p v with
  | some s => some s
  | none => relaxingWeights.findSome? (relaxedStep? L p v)

/-- Searches along a direction for a merit that falls by a part of what the slope promises, as far
as rounding lets that be seen. -/
def shorten (p : Program Float m) (weights : List Float) (x d : Vector Float m)
    (start slope : Float) : Nat → Float → Float
  | 0, a => a
  | left + 1, a =>
    let change := merit p weights (intoRanges p (addMul x a d)) - start
    let noise := 1e-14 * (1.0 + start.abs)
    if change ≤ 0.1 * a * slope + noise then a
    else
      let vertex := -(slope * a) / (2.0 * (change / a - slope))
      let next := if vertex < 0.1 * a || !vertex.isFinite then 0.1 * a
        else if 0.5 * a < vertex then 0.5 * a else vertex
      shorten p weights x d start slope left next

/-- The gradient of the Lagrangian at a view. -/
def lagrangianGradient (v : View m) (multipliers : List Float) : Vector Float m :=
  (v.lines.zip multipliers).foldl (fun g (l, y) ↦ addMul g (-y) l.gradient) v.gradient

/-- The model after a move `s` along which the gradient of the Lagrangian changes by `y`. A change
that would lose definiteness is damped. -/
def update (B : SquareMatrix Float m) (s y : Vector Float m) : SquareMatrix Float m :=
  let Bs := mulVec B s
  let sBs := dot s Bs
  let sy := dot s y
  let damping := if 0.2 * sBs ≤ sy then 1.0 else 0.8 * sBs / (sBs - sy)
  let y := Vector.ofFn fun i : Fin m ↦ damping * y[i] + (1.0 - damping) * Bs[i]
  let sy := dot s y
  if 0.0 < sBs && 0.0 < sy then
    Vector.ofFn fun i : Fin m ↦ Vector.ofFn fun j : Fin m ↦
      B[i][j] + y[i] * y[j] / sy - Bs[i] * Bs[j] / sBs
  else B

def identity (m : Nat) : SquareMatrix Float m :=
  Vector.ofFn fun i ↦ axis i 1.0

/-! ## The iteration -/

structure State (m : Nat) where
  view : View m
  model : SquareMatrix Float m
  weights : List Float
  resets : Nat
  iterations : Nat

inductive Exit where
  | solved
  | incompatible
  | stuck
  | iterationLimit
deriving DecidableEq, Repr

namespace Exit

def code : Exit → Int
  | solved => 0
  | incompatible => Minimum.incompatible
  | stuck => 8
  | iterationLimit => 9

def text : Exit → String
  | solved => "Optimization terminated successfully"
  | incompatible => "Inequality constraints incompatible"
  | stuck => "Positive directional derivative for linesearch"
  | iterationLimit => "Iteration limit reached"

end Exit

/-- Starts the model over, as long as that has not been done too often. -/
def reset (s : State m) : Option (State m) :=
  if s.resets < 5 then some { s with model := identity m, resets := s.resets + 1 } else none

def advance (p : Program Float m) (acc : Float) (s : State m) : State m × Option Exit :=
  let v := s.view
  let restart (exit : Exit) : State m × Option Exit :=
    match reset s with
    | some s => (s, none)
    | none => (s, some exit)
  match Triangular.factor? s.model with
  | none => restart .stuck
  | some L =>
    match step? L p v with
    | none => restart .incompatible
    | some step =>
      let d := step.direction
      let misses := v.lines.map Line.miss
      let slope := dot v.gradient d
      let sizes := step.multipliers.map Float.abs
      let loose := 1e2 * acc * (1.0 + v.value.abs)
      let settled (tol : Float) : Bool :=
        slope.abs + weightedMisses sizes misses < tol && v.misses < tol
      if settled acc then (s, some .solved)
      else
        let weights := (s.weights.zip sizes).map fun (w, y) ↦
          if y < (w + y) / 2.0 then (w + y) / 2.0 else y
        let fall := slope - (1.0 - step.relaxed) * weightedMisses weights misses
        if 0.0 ≤ fall || fall.isNaN then
          if settled loose then (s, some .solved) else restart .stuck
        else
          let start := v.value + weightedMisses weights misses
          let a := shorten p weights v.point d start fall 20 1.0
          let next := look p (intoRanges p (addMul v.point a d))
          let move := Vector.ofFn fun i : Fin m ↦ next.point[i] - v.point[i]
          let change := Vector.ofFn fun i : Fin m ↦
            (lagrangianGradient next step.multipliers)[i] -
              (lagrangianGradient v step.multipliers)[i]
          let t := { s with
            view := next
            weights := weights
            model := update s.model move change
            iterations := s.iterations + 1 }
          if ((next.value - v.value).abs < acc || norm move < acc) && next.misses < acc then
            (t, some .solved)
          else (t, none)

def iterate (p : Program Float m) (acc : Float) (limit : Nat) : Nat → State m → State m × Exit
  | 0, s => (s, .iterationLimit)
  | left + 1, s =>
    if limit ≤ s.iterations then (s, .iterationLimit)
    else
      match advance p acc s with
      | (s, some exit) => (s, exit)
      | (s, none) => iterate p acc limit left s

def start (p : Program Float m) : State m where
  view := look p (intoRanges p p.start)
  model := identity m
  weights := p.conditions.map fun _ ↦ 0.0
  resets := 0
  iterations := 0

def minimum (p : Program Float m) (acc : Float) (limit : Nat) : Minimum Float Float :=
  let (s, exit) := iterate p acc limit (limit + 10) (start p)
  { point := .ok (.ofVector s.view.point)
    value := .ok s.view.value
    success := .ok (exit == .solved)
    status := some (.int exit.code)
    message := exit.text
    iterations := .int s.iterations }

/-- The numbers among the settings of a job, with their defaults. -/
def accuracy (settings : List (String × Setting)) : Float :=
  let given := (settingNamed? "ftol" settings).orElse fun _ ↦ settingNamed? "gtol" settings
  (given.bind Setting.number?).getD 1e-6

def iterationLimit (settings : List (String × Setting)) : Nat :=
  (((settingNamed? "maxiter" settings).bind fun v ↦ v.toInt.toOption).map Int.toNat).getD 100

def minimizer {σ : Type} : Minimizer Float Float Empty σ := fun job s ↦
  (.finished (minimum job.program (accuracy job.settings) (iterationLimit job.settings)), s)

end GlobalQcqp.Sequential
