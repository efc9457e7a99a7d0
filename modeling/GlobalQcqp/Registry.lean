import GlobalQcqp.Defaults
import GlobalQcqp.Setting.Entries
import GlobalQcqp.Solver.Staged
/-!
# Solver registries

A registry knows by name how solvers are made from settings.  There is one for convex and one for
local solvers; a later entry replaces an earlier one of the same name.

Settings are checked in a fixed order, and the first that cannot be used is reported.
-/

namespace GlobalQcqp

inductive SolverKind where
  | convex
  | localSearch
deriving DecidableEq, Repr

namespace SolverKind

def text : SolverKind → String
  | convex => "convex"
  | localSearch => "local"

end SolverKind

inductive SetupError where
  | misfit (cause : Misfit)
  | unsupported (method : Setting)
  /-- The interior-point routine is not installed. -/
  | unavailable
  | unregistered (kind : SolverKind) (name : String)

structure MinimizerSettings where
  method : Method
  maxIterations : Int
  accuracy : Float
  extra : List (String × Setting)

structure ConvexSettings extends MinimizerSettings where
  tol : Float

structure InteriorSettings where
  maxIterations : Int
  accuracy : Float
  printLevel : Int
  extra : List (String × Setting)

/-! ## Reading settings -/

/-- Refuses an entry whose name is not expected. -/
def expectNames (names : List String) (entries : List (String × Setting)) :
    Except SetupError Unit :=
  if entries.all fun (name, _) ↦ names.contains name then .ok () else .error (.misfit .kind)

private def readInteger (entries : List (String × Setting)) (name : String) (default : Int) :
    Except SetupError Int :=
  match settingNamed? name entries with
  | none => .ok default
  | some v => v.toInt.mapError .misfit

private def readNumber (entries : List (String × Setting)) (name : String) (default : Float) :
    Except SetupError Float :=
  match settingNamed? name entries with
  | none => .ok default
  | some v => v.toFloat.mapError .misfit

private def readExtra (entries : List (String × Setting)) :
    Except SetupError (List (String × Setting)) :=
  ((settingNamed? "options" entries).getD .none).toEntries.mapError .misfit

private def readMethod (entries : List (String × Setting)) : Except SetupError Method :=
  match (settingNamed? "method" entries).getD (.text Method.sequential.text) with
  | .text s => (Method.ofText? s).elim (.error (.unsupported (.text s))) .ok
  | .list _ | .fields _ => .error (.misfit .kind)
  | v => .error (.unsupported v)

namespace MinimizerSettings

def names : List String :=
  ["method", "maxiter", "ftol", "options"]

def ofEntries (entries : List (String × Setting)) : Except SetupError MinimizerSettings := do
  expectNames names entries
  let method ← readMethod entries
  let maxIterations ← readInteger entries "maxiter" Defaults.maxIterations
  let accuracy ← readNumber entries "ftol" Defaults.localTol
  return { method, maxIterations, accuracy, extra := ← readExtra entries }

/-- The settings of a local solve. Extra settings come last and win. -/
def forLocal (s : MinimizerSettings) : List (String × Setting) :=
  let own := match s.method with
    | .sequential => [("maxiter", .int s.maxIterations), ("ftol", .real s.accuracy)]
    | .trustRegion => [("maxiter", .int s.maxIterations)]
  s.extra.foldl (fun all (name, v) ↦ setEntry name v all) own

/-- The settings of a convex solve. The trust-region method has its own name for the accuracy. -/
def forConvex (s : MinimizerSettings) : List (String × Setting) :=
  let accuracyName := match s.method with
    | .sequential => "ftol"
    | .trustRegion => "gtol"
  s.extra.foldl (fun all (name, v) ↦ setEntry name v all)
    [("maxiter", .int s.maxIterations), (accuracyName, .real s.accuracy)]

def solverName (s : MinimizerSettings) : String :=
  "scipy-" ++ s.method.text

end MinimizerSettings

namespace ConvexSettings

def ofEntries (entries : List (String × Setting)) : Except SetupError ConvexSettings := do
  expectNames ("feasibility_tol" :: MinimizerSettings.names) entries
  let method ← readMethod entries
  let maxIterations ← readInteger entries "maxiter" Defaults.maxIterations
  let accuracy ← readNumber entries "ftol" Defaults.convexTol
  let tol ← readNumber entries "feasibility_tol" Defaults.feasibilityTol
  return { method, maxIterations, accuracy, tol, extra := ← readExtra entries }

def stages (s : ConvexSettings) : Staged Float :=
  ⟨s.method, s.forConvex, s.tol⟩

end ConvexSettings

namespace InteriorSettings

def solverName : String :=
  "IPOPT"

/-- Reads the settings if the routine is there. -/
def ofEntries (isAvailable : Bool) (entries : List (String × Setting)) :
    Except SetupError InteriorSettings := do
  expectNames ["maxiter", "tol", "print_level", "options"] entries
  if !isAvailable then .error .unavailable
  let maxIterations ← readInteger entries "maxiter" 1000
  let accuracy ← readNumber entries "tol" 1e-8
  let printLevel ← readInteger entries "print_level" 0
  return { maxIterations, accuracy, printLevel, extra := ← readExtra entries }

def all (s : InteriorSettings) : List (String × Setting) :=
  [("print_level", .int s.printLevel), ("max_iter", .int s.maxIterations),
      ("tol", .real s.accuracy)]
    ++ s.extra

end InteriorSettings

/-! ## Registries -/

/-- How a solver is made: by the library, or by whatever a tag stands for. -/
inductive Maker (τ : Type) where
  | minimizer (method : Method)
  | interiorPoint
  | custom (tag : τ)

structure Registry (τ : Type) where
  kind : SolverKind
  makers : List (String × Maker τ)

inductive Made (τ : Type) where
  | convex (settings : ConvexSettings)
  | localSearch (settings : MinimizerSettings)
  | interiorPoint (settings : InteriorSettings)
  | custom (tag : τ) (settings : List (String × Setting))

namespace Registry

variable {τ : Type}

private def byMethod (m : Method) : String × Maker τ :=
  (m.text, .minimizer m)

def convex : Registry τ :=
  ⟨.convex, [byMethod .sequential, byMethod .trustRegion]⟩

def localSearch : Registry τ :=
  ⟨.localSearch,
    [byMethod .sequential, byMethod .trustRegion, (InteriorSettings.solverName, .interiorPoint)]⟩

/-- Adds a maker, or replaces the one of the same name. A name that is no text is never looked
up. -/
def register (r : Registry τ) (name : Setting) (maker : Maker τ) : Except Misfit (Registry τ) :=
  match name with
  | .text s => .ok { r with makers := setEntry s maker r.makers }
  | v => if v.isName then .ok r else .error .kind

/-- Makes a solver. The method of a minimizer follows from the name and cannot be set. -/
def make (r : Registry τ) (hasInterior : Bool) (name : Setting) (settings : Setting) :
    Except SetupError (Made τ) :=
  match settingNamed? name.plain r.makers with
  | none => .error (.unregistered r.kind name.plain)
  | some maker => do
    let entries ← settings.toEntries.mapError .misfit
    match maker with
    | .custom tag => return .custom tag entries
    | .interiorPoint => return .interiorPoint (← InteriorSettings.ofEntries hasInterior entries)
    | .minimizer method =>
      if entries.any (·.1 == "method") then .error (.misfit .kind)
      let entries := ("method", .text method.text) :: entries
      match r.kind with
      | .convex => return .convex (← ConvexSettings.ofEntries entries)
      | .localSearch => return .localSearch (← MinimizerSettings.ofEntries entries)

end Registry

def SetupError.message? : SetupError → Option String
  | .misfit _ => none
  | .unsupported method => some s!"Solver '{method.plain}' is not supported by the SciPy backend"
  | .unavailable =>
    some ("IPOPT backend requires 'cyipopt' to be installed. " ++
      "Install with: pip install cyipopt")
  | .unregistered kind name => some s!"No {kind.text} solver registered for solver '{name}'"

end GlobalQcqp
