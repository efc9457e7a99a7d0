import GlobalQcqp.Defaults
import GlobalQcqp.Setting.Entries
import GlobalQcqp.Setting.Word
/-!
# Option sheets

Options as they are given: a setting for every field, whatever its kind.  A sheet is checked field
by field in a fixed order and keeps its settings as they are; `OptionSheet.toOptions` converts them
for a search.

Settings for the two solvers are given in fields of their own or under names that begin with
`convex_` or `local_`.
-/

namespace GlobalQcqp

inductive OptionField where
  | absGap
  | relGap
  | maxNodes
  | maxIterations
  | maxTime
  | minWidth
  | feasibilityTol
  | nodeSelection
  | hybridInterval
  | branching
  | branchPoint
  | propagation
  | probeDepth
  | upperInterval
  | lowerRetries
  | reportInterval
  | convexSolver
  | convexOptions
  | localSolver
  | localOptions
deriving DecidableEq, Repr

namespace OptionField

def all : List OptionField :=
  [absGap, relGap, maxNodes, maxIterations, maxTime, minWidth, feasibilityTol, nodeSelection,
    hybridInterval, branching, branchPoint, propagation, probeDepth, upperInterval, lowerRetries,
    reportInterval, convexSolver, convexOptions, localSolver, localOptions]

def name : OptionField → String
  | absGap => "abs_gap"
  | relGap => "rel_gap"
  | maxNodes => "max_nodes"
  | maxIterations => "max_iterations"
  | maxTime => "max_time"
  | minWidth => "min_width"
  | feasibilityTol => "feasibility_tol"
  | nodeSelection => "node_selection"
  | hybridInterval => "hybrid_interval"
  | branching => "branching"
  | branchPoint => "branch_point"
  | propagation => "propagation"
  | probeDepth => "obbt_depth"
  | upperInterval => "upper_interval"
  | lowerRetries => "lower_retries"
  | reportInterval => "report_interval"
  | convexSolver => "convex_solver"
  | convexOptions => "convex_options"
  | localSolver => "local_solver"
  | localOptions => "local_options"

def ofName? (s : String) : Option OptionField :=
  all.find? (·.name == s)

def default : OptionField → Setting
  | absGap | relGap | maxIterations => .none
  | maxNodes => .int 100000
  | maxTime => .real 300.0
  | minWidth => .real Defaults.minWidth
  | feasibilityTol => .real Defaults.feasibilityTol
  | nodeSelection => .text NodeSelection.bestFirst.text
  | hybridInterval => .int 10
  | branching => .text BranchingRule.largestWidth.text
  | branchPoint => .text BranchPoint.midpoint.text
  | propagation => .text PropagationMode.feasibility.text
  | probeDepth => .int 0
  | upperInterval | lowerRetries => .int 1
  | reportInterval => .int 100
  | convexSolver | localSolver => .text "SLSQP"
  | convexOptions | localOptions => .fields []

end OptionField

abbrev OptionSheet :=
  OptionField → Setting

inductive OptionError where
  | misfit (cause : Misfit)
  | unknown (name : String)
  | noSuchWord (cause : NoSuchWord)
  | noSuchMode (value : Setting)
  | negative (field : OptionField) (value : Setting)
  | notPositive (field : OptionField) (value : Setting)

namespace OptionSheet

def blank : OptionSheet :=
  OptionField.default

def set (sheet : OptionSheet) (field : OptionField) (value : Setting) : OptionSheet :=
  fun f ↦ if f = field then value else sheet f

/-- A field that is to be a word. -/
private def word {ρ : Type} (sheet : OptionSheet) (read : Setting → Except NoSuchWord ρ)
    (field : OptionField) : Except OptionError ρ :=
  (read (sheet field)).mapError .noSuchWord

def mode (sheet : OptionSheet) : Except OptionError PropagationMode :=
  match sheet .propagation with
  | .text s => (PropagationMode.ofText? s).elim (.error (.noSuchMode (.text s))) .ok
  | v => .error (.noSuchMode v)

private def number (sheet : OptionSheet) (field : OptionField) : Except OptionError Float :=
  (sheet field).number?.elim (.error (.misfit .kind)) .ok

private def requireNonNegative (sheet : OptionSheet) (field : OptionField) :
    Except OptionError Unit := do
  if (← sheet.number field) < 0.0 then .error (.negative field (sheet field))

private def requirePositive (sheet : OptionSheet) (field : OptionField) :
    Except OptionError Unit := do
  if (← sheet.number field) ≤ 0.0 then .error (.notPositive field (sheet field))

/-- A field that may be left open is checked only when it is given. -/
private def ifGiven (sheet : OptionSheet) (field : OptionField) (check : Except OptionError Unit) :
    Except OptionError Unit :=
  if (sheet field).isNone then .ok () else check

/-- Names the first rule that a setting breaks. -/
def check (sheet : OptionSheet) : Except OptionError Unit := do
  let _ ← sheet.word NodeSelection.ofSetting .nodeSelection
  let _ ← sheet.word BranchingRule.ofSetting .branching
  let _ ← sheet.word BranchPoint.ofSetting .branchPoint
  let _ ← sheet.mode
  sheet.ifGiven .absGap (sheet.requireNonNegative .absGap)
  sheet.ifGiven .relGap (sheet.requireNonNegative .relGap)
  sheet.requirePositive .maxTime
  sheet.requirePositive .maxNodes
  sheet.ifGiven .maxIterations (sheet.requirePositive .maxIterations)
  sheet.requireNonNegative .minWidth
  sheet.requirePositive .upperInterval
  sheet.requireNonNegative .reportInterval

def ofFields (given : Setting) : Except OptionError OptionSheet := do
  let entries ← match given with
    | .fields entries => .ok entries
    | v => if v.isBlank then .ok [] else .error (.misfit .kind)
  let sheet ← entries.foldlM
    (fun (sheet : OptionSheet) (name, value) ↦
      match OptionField.ofName? name with
      | some field => .ok (sheet.set field value)
      | none => .error (.misfit .kind))
    blank
  sheet.check
  return sheet

/-- The rest of a name after its beginning. -/
private def after? (start name : String) : Option String :=
  if name.startsWith start then some (String.ofList (name.toList.drop start.length)) else none

private def solverEntries (pairs : List (Setting × Setting)) (field : OptionField) :
    Except OptionError (List (String × Setting)) :=
  let own := pairs.find? fun (name, _) ↦ name.equals (.text field.name)
  let value : Setting := own.elim .none fun (_, value) ↦ value
  value.toEntries.mapError .misfit

/-- Files one entry: a field of the sheet, or a setting for one of the solvers. -/
private def file (state : OptionSheet × List (String × Setting) × List (String × Setting))
    (entry : Setting × Setting) :
    Except OptionError (OptionSheet × List (String × Setting) × List (String × Setting)) := do
  let (sheet, convex, localEntries) := state
  let (.text name, value) := entry | .error (.misfit .absent)
  match OptionField.ofName? name with
  | some .convexOptions | some .localOptions => return state
  | some field => return (sheet.set field value, convex, localEntries)
  | none =>
    match after? "convex_" name, after? "local_" name with
    | some rest, _ => return (sheet, setEntry rest value convex, localEntries)
    | none, some rest => return (sheet, convex, setEntry rest value localEntries)
    | none, none => .error (.unknown name)

def ofSetting (given : Setting) : Except OptionError OptionSheet := do
  let pairs ← if given.isBlank then .ok [] else given.toPairs.mapError .misfit
  let convex ← solverEntries pairs .convexOptions
  let localEntries ← solverEntries pairs .localOptions
  let (sheet, convex, localEntries) ← pairs.foldlM file (blank, convex, localEntries)
  let sheet := (sheet.set .convexOptions (.fields convex)).set .localOptions (.fields localEntries)
  sheet.check
  return sheet

def gaps (sheet : OptionSheet) (absTol relTol : Setting) : Except Misfit (Float × Float) := do
  let pick (field : OptionField) (other : Setting) : Setting :=
    if (sheet field).isNone then other else sheet field
  return (← (pick .absGap absTol).toFloat, ← (pick .relGap relTol).toFloat)

/-! ## Conversion for a search -/

/-- The largest integer a number of nodes or iterations may reach without passing a limit. -/
private def floorOf (x : Float) : Nat :=
  match Binary.ofFloat x with
  | .finite false m e => let v := Quotient.ofBinary m e; v.num / v.den
  | .finite true _ _ => 0
  | _ => Nat.pow 10 18

/-- The smallest number of iterations that reaches a limit. -/
private def ceilOf (x : Float) : Nat :=
  match Binary.ofFloat x with
  | .finite false m e => let v := Quotient.ofBinary m e; (v.num + v.den - 1) / v.den
  | .finite true _ _ => 0
  | _ => Nat.pow 10 18

/-- The integer with the same integer multiples as a positive number. No integer is a multiple of a
number that is not finite, and zero stands for that. -/
private def periodOf (x : Float) : Nat :=
  match Binary.ofFloat x with
  | .finite _ m e => let v := Quotient.ofBinary m e; v.num / Nat.gcd v.num v.den
  | _ => 0

private def real (sheet : OptionSheet) (field : OptionField) : Except OptionError Float :=
  match (sheet field).toFloat with
  | .ok x => .ok x
  | .error cause => .error (.misfit cause)

private def integer (sheet : OptionSheet) (field : OptionField) : Except OptionError Int :=
  match (sheet field).toInt with
  | .ok n => .ok n
  | .error cause => .error (.misfit cause)

private def realIfGiven (sheet : OptionSheet) (field : OptionField) :
    Except OptionError (Option Float) :=
  if (sheet field).isNone then .ok none else some <$> sheet.real field

/-- The parts of a search that are set up from a sheet. A setting that no part uses is not
converted. -/
structure Uses where
  propagation : Bool
  lower : Bool
  upper : Bool

def Uses.all : Uses :=
  ⟨true, true, true⟩

/-- Converts a field for a part that uses it. -/
private def ifUsed {ρ : Type} (isUsed : Bool) (default : ρ) (x : Except OptionError ρ) :
    Except OptionError ρ :=
  if isUsed then x else .ok default

/-- The interval of the hybrid policy, which is converted when a search starts. -/
def hybridInterval (sheet : OptionSheet) : Except OptionError Int :=
  sheet.integer .hybridInterval

/-- The options of a search, except for the interval of the hybrid policy. -/
def toOptions (sheet : OptionSheet) (uses : Uses) : Except OptionError (Options Float Float) := do
  let absGap ← sheet.realIfGiven .absGap
  let relGap ← sheet.realIfGiven .relGap
  let propagated ← ifUsed uses.propagation Defaults.feasibilityTol (sheet.real .feasibilityTol)
  let minWidth ← sheet.real .minWidth
  let probeDepth ← ifUsed uses.propagation 0 (sheet.integer .probeDepth)
  let lowerRetries ← ifUsed uses.lower 0 (sheet.integer .lowerRetries)
  let feasibilityTol ← ifUsed uses.upper propagated (sheet.real .feasibilityTol)
  return {
    absGap, relGap, feasibilityTol, minWidth, probeDepth
    lowerRetries := lowerRetries.toNat
    hybridInterval := sheet.hybridInterval.toOption.getD 1
    maxNodes := floorOf (← sheet.number .maxNodes)
    maxIterations := (← sheet.realIfGiven .maxIterations).map ceilOf
    maxTime := ← sheet.number .maxTime
    selection := ← sheet.word NodeSelection.ofSetting .nodeSelection
    branching := ← sheet.word BranchingRule.ofSetting .branching
    branchPoint := ← sheet.word BranchPoint.ofSetting .branchPoint
    propagation := ← sheet.mode
    upperInterval := periodOf (← sheet.number .upperInterval)
    reportInterval := periodOf (← sheet.number .reportInterval) }

end OptionSheet

def OptionError.message? : OptionError → Option String
  | .misfit _ => none
  | .unknown name => some s!"Unknown branch-and-bound option '{name}'"
  | .noSuchWord cause => some cause.message
  | .noSuchMode value =>
    let modes := ", ".intercalate (PropagationMode.all.map fun m ↦ Text.quoted m.text)
    some s!"propagation must be one of ({modes}), got '{value.plain}'"
  | .negative field value => some s!"{field.name} must be non-negative, got {value.plain}"
  | .notPositive field value => some s!"{field.name} must be positive, got {value.plain}"

end GlobalQcqp
