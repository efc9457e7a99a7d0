import GlobalQcqp.Minimizer.Sequential
import GlobalQcqp.Options.Sheet
import GlobalQcqp.Registry
import GlobalQcqp.Search.Tree
import GlobalQcqp.Solver.Descent
import GlobalQcqp.Spectrum.Rotation
/-!
# Solving a problem

Sets a search tree up from a sheet of options, with solvers from the standard registries and
eigenvalues by plane rotations, and runs it.
-/

namespace GlobalQcqp

inductive SolveFailure where
  | options (cause : OptionError)
  | solver (cause : SetupError)
  | tree (cause : TreeError Float)

namespace OptionSheet

/-- Settings for the convex solver. Its tolerance follows the one for feasible points. -/
def convexEntries (sheet : OptionSheet) : Except SetupError (List (String × Setting)) := do
  let entries ← (sheet .convexOptions).named.mapError .misfit
  if entries.any (·.1 == "feasibility_tol") then return entries
  else return entries ++ [("feasibility_tol", sheet .feasibilityTol)]

def convexSolver (sheet : OptionSheet) : Except SetupError ConvexSettings := do
  let entries ← sheet.convexEntries
  let made : Made Empty ← Registry.convex.make false (sheet .convexSolver) (.fields entries)
  match made with
  | .convex settings => return settings
  | _ => .error (.misfit .kind)

def localSolver (sheet : OptionSheet) : Except SetupError MinimizerSettings := do
  let made : Made Empty ← Registry.localSearch.make false (sheet .localSolver) (sheet .localOptions)
  match made with
  | .localSearch settings => return settings
  | _ => .error (.misfit .kind)

end OptionSheet

/-- A clock that advances by one step before each reading. -/
def steadyClock (step : Float) (reading : Nat) : Float :=
  (List.range (reading + 1)).foldl (fun time _ ↦ time + step) 0.0

structure Solved (p : Problem Float) where
  result : SearchResult Float Float p
  tree : SearchTree Float Float Unit p

namespace Problem

/-- The time a reading of the nominal clock takes, in seconds. -/
def nominalTick : Float := 1e-5

/-- Solves a problem to global optimality, by the nominal clock and without a cancel request. -/
def solve (p : Problem Float) (sheet : OptionSheet) : Except SolveFailure (Solved p) := do
  let convex ← sheet.convexSolver.mapError .solver
  let descent ← sheet.localSolver.mapError .solver
  let options ← (sheet.toOptions .all).mapError .options
  let parts : Components Float Float Unit p :=
    Components.standard p options Rotation.routine
      (Staged.solver Sequential.minimizer convex.stages)
      (Descent.solver (β := Float) Sequential.minimizer descent.method descent.forLocal)
  let setup : Setup Float Float Unit p :=
    { options, routine := Rotation.routine, parts
      clock := fun k ↦ nominalTick * (k + 1).toFloat
      isCancelled := fun _ ↦ false }
  let tree ← (SearchTree.make setup).mapError fun cause ↦ .tree (.fault cause)
  let _ ← sheet.hybridInterval.mapError .options
  let (result, tree) ← (tree.solve ()).mapError .tree
  return ⟨result, tree⟩

end Problem

end GlobalQcqp
