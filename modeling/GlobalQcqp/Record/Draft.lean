import GlobalQcqp.Record
import GlobalQcqp.Setting.Entries
/-!
# Records as they are given

A record whose fields are settings of any kind.  Every field but the marker has to be given, and no
other setting may be.
-/

namespace GlobalQcqp

structure RecordDraft where
  iteration : Setting
  nodes : Setting
  openNodes : Setting
  lowerBound : Setting
  upperBound : Setting
  gap : Setting
  ratio : Setting
  elapsed : Setting
  remaining : Setting
  marker : Setting

namespace RecordDraft

def fieldNames : List String :=
  ["iteration", "nodes", "open_nodes", "lower_bound", "upper_bound", "gap", "ratio", "elapsed",
    "remaining"]

def markerName : String :=
  "marker"

def ofEntries (entries : List (String × Setting)) : Except Misfit RecordDraft := do
  if entries.any fun (name, _) ↦ !(markerName :: fieldNames).contains name then .error .kind
  let setting (name : String) : Except Misfit Setting :=
    (settingNamed? name entries).elim (.error .kind) .ok
  return {
    iteration := ← setting "iteration"
    nodes := ← setting "nodes"
    openNodes := ← setting "open_nodes"
    lowerBound := ← setting "lower_bound"
    upperBound := ← setting "upper_bound"
    gap := ← setting "gap"
    ratio := ← setting "ratio"
    elapsed := ← setting "elapsed"
    remaining := ← setting "remaining"
    marker := (settingNamed? markerName entries).getD (.text "") }

end RecordDraft

def Record.draft (r : Record Float) : RecordDraft where
  iteration := .int r.iteration
  nodes := .int r.nodes
  openNodes := .int r.openNodes
  lowerBound := .real r.lowerBound
  upperBound := .real r.upperBound
  gap := .real r.gap
  ratio := .real r.ratio
  elapsed := .real r.elapsed
  remaining := .real r.remaining
  marker := .text r.marker

end GlobalQcqp
