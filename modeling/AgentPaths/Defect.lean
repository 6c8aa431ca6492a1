/-!
Defects of an instance: the reasons for which a graph or a list of agents is refused, each with the
sentence that reports it.
-/
namespace AgentPaths

inductive Defect where
  /-- The edge table of a graph with `count` nodes cannot be addressed or held. -/
  | tooManyNodes (count : Nat)
  /-- An edge or an agent names a node that the graph of `count` nodes does not have. -/
  | nodeOutOfRange (node count : Nat)
  /-- The agents `first` and `second` start on one node. -/
  | sharedInitial (node first second : Nat)
  /-- The agents `first` and `second` finish on one node. -/
  | sharedGoal (node first second : Nat)
deriving DecidableEq

def Defect.message : Defect → String
  | tooManyNodes count => s!"a graph of {count} nodes is too large"
  | nodeOutOfRange node count => s!"node {node} is out of range for a graph of {count} nodes"
  | sharedInitial node first second => s!"agents {first} and {second} both start at node {node}"
  | sharedGoal node first second => s!"agents {first} and {second} both finish at node {node}"

end AgentPaths
