import GlobalQcqp.Decimal.Rounded
import GlobalQcqp.Record.Draft
/-!
# Progress tables

Records as the rows of a table, under a header line and a line of dashes, and the lines that a log
takes at a level.
-/

namespace GlobalQcqp.RecordDraft

/-- A number that is written with a fixed number of places. Text has no such form. -/
def placed (v : Setting) : Except Misfit Float :=
  match v with
  | .text _ => .error .content
  | v => v.toFloat

def cell (width : Nat) (v : Setting) : Except Misfit String := do
  return Decimal.padLeft width ' ' (Decimal.scientific 4 (← placed v))

def seconds (v : Setting) : Except Misfit String := do
  return Decimal.padLeft 7 ' ' (Decimal.fixed 1 (← placed v)) ++ "s"

/-- A count, aligned to the right. Any number or text will do. -/
def count (width : Nat) (v : Setting) : Except Misfit String :=
  match v with
  | .none | .list _ | .fields _ => .error .kind
  | .bool b => .ok (Decimal.padLeft width ' ' (if b then "1" else "0"))
  | v => .ok (Decimal.padLeft width ' ' v.plain)

def columns : List (String × Nat) :=
  [("Iter", 8), ("Nodes", 8), ("Open", 7), ("Lower Bound", 12), ("Upper Bound", 12), ("Gap", 10),
    ("Ratio", 10), ("Time", 8), ("Left", 8)]

def header : String :=
  " ".intercalate (columns.map fun (name, width) ↦ Decimal.padLeft width ' ' name)

def dashes : String :=
  String.ofList (List.replicate header.length '-')

def row (r : RecordDraft) : Except Misfit String := do
  return " ".intercalate
    [← count 8 r.iteration, ← count 8 r.nodes, ← count 7 r.openNodes, ← cell 12 r.lowerBound,
      ← cell 12 r.upperBound, ← cell 10 r.gap, ← cell 10 r.ratio, ← seconds r.elapsed,
      ← seconds r.remaining, r.marker.plain]

/-- The lines of a table; there is no header over no rows. -/
def table (rows : List String) : List String :=
  if rows.isEmpty then [] else header :: dashes :: rows

/-- The level below which nothing is logged. -/
def leastLevel : Int := 10

def levelName (level : Int) : String :=
  if level = 10 then "DEBUG"
  else if level = 20 then "INFO"
  else if level = 30 then "WARNING"
  else if level = 40 then "ERROR"
  else if level = 50 then "CRITICAL"
  else s!"Level {level}"

/-- The lines of a table as they are logged at a level. Every record is read and written in turn,
even where nothing is logged; the level is looked at with the first of them. -/
def logged (level : Except Misfit Int) (records : List (List (String × Setting))) :
    Except Misfit (List (String × String)) := do
  let rows ← records.mapM fun entries ↦ do
    let r ← ofEntries entries
    let _ ← level
    r.row
  if rows.isEmpty then return []
  let level ← level
  return if level < leastLevel then [] else (table rows).map (levelName level, ·)

end GlobalQcqp.RecordDraft
