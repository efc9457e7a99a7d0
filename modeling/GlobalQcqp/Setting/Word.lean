import GlobalQcqp.Options.Names
import GlobalQcqp.Setting
import GlobalQcqp.Solver.Status
/-!
# Settings that are words

Policies and outcomes are chosen by a word.  A setting that is none of the words is refused together
with the name of what it was to choose.
-/

namespace GlobalQcqp

structure NoSuchWord where
  kind : String
  value : Setting

namespace NoSuchWord

def message (e : NoSuchWord) : String :=
  s!"{e.value.render} is not a valid {e.kind}"

end NoSuchWord

def Setting.word {ρ : Type} (kind : String) (ofText? : String → Option ρ) :
    Setting → Except NoSuchWord ρ
  | text s => (ofText? s).elim (.error ⟨kind, text s⟩) .ok
  | v => .error ⟨kind, v⟩

def NodeSelection.ofSetting : Setting → Except NoSuchWord NodeSelection :=
  Setting.word "NodeSelection" ofText?

def BranchingRule.ofSetting : Setting → Except NoSuchWord BranchingRule :=
  Setting.word "BranchingRule" ofText?

def BranchPoint.ofSetting : Setting → Except NoSuchWord BranchPoint :=
  Setting.word "BranchPoint" ofText?

def Termination.ofSetting : Setting → Except NoSuchWord Termination :=
  Setting.word "TerminationStatus" ofText?

def PrimalStatus.ofSetting : Setting → Except NoSuchWord PrimalStatus :=
  Setting.word "PrimalStatus" ofText?

end GlobalQcqp
