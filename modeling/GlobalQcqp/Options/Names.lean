import GlobalQcqp.Options
/-!
# Names of policies

The words by which options choose a policy.
-/

namespace GlobalQcqp

namespace NodeSelection

def text : NodeSelection → String
  | bestFirst => "best_first"
  | depthFirst => "depth_first"
  | hybrid => "hybrid"

def ofText? (s : String) : Option NodeSelection :=
  [bestFirst, depthFirst, hybrid].find? (·.text == s)

end NodeSelection

namespace BranchingRule

def text : BranchingRule → String
  | largestWidth => "largest_width"
  | relaxationGap => "relaxation_gap"

def ofText? (s : String) : Option BranchingRule :=
  [largestWidth, relaxationGap].find? (·.text == s)

end BranchingRule

namespace BranchPoint

def text : BranchPoint → String
  | midpoint => "midpoint"
  | relaxation => "relaxation"

def ofText? (s : String) : Option BranchPoint :=
  [midpoint, relaxation].find? (·.text == s)

end BranchPoint

namespace PropagationMode

def text : PropagationMode → String
  | none => "none"
  | feasibility => "fbbt"
  | optimality => "obbt"
  | both => "both"

def all : List PropagationMode :=
  [none, feasibility, optimality, both]

def ofText? (s : String) : Option PropagationMode :=
  all.find? (·.text == s)

end PropagationMode

end GlobalQcqp
