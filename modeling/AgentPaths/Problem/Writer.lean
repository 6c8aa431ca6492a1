import AgentPaths.Problem
import AgentPaths.Text.Line
import AgentPaths.Text.Number

/-!
The text of a problem: the number of nodes, the edges and the agents, each behind its number and
under a heading of its own.
-/
namespace AgentPaths

open Text

def pairLine (p : Nat × Nat) : List Char := decimal p.1 ++ ' ' :: decimal p.2

namespace Problem

/-- The lines for the agents; without agents one empty line stands in their place. -/
def agentLines (p : Problem) : List (List Char) :=
  match p.agents with
  | [] => [[]]
  | agents => agents.map fun a => pairLine (a.initial, a.goal)

def lines (p : Problem) : List (List Char) :=
  ["# Number of nodes".toList, decimal p.graph.size, [],
    "# Number of edges".toList, decimal p.graph.edgeCount, [],
    "# Graph's edges".toList] ++ p.graph.edges.map pairLine ++
  [[], "# Number of agents".toList, decimal p.agents.length, [],
    "# Agents initial and goal nodes".toList] ++ p.agentLines

def text (p : Problem) : List Char := unlines p.lines

end Problem

end AgentPaths
