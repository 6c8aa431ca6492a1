import AgentPaths.Problem

/-!
Schedules: for each agent the nodes on which it stands at the times `0, 1, …`. `IsSolution` says
what a schedule has to do for a problem. Nothing about a schedule itself is assumed: its paths may
differ in length, be empty, or leave the graph.
-/
namespace AgentPaths

structure Schedule where
  /-- The path of each agent: its nodes by time. -/
  paths : List (List Nat)
deriving DecidableEq

namespace Schedule

/-- The number of steps of the first path; a schedule without paths has none. -/
def makespan? (s : Schedule) : Option Nat := s.paths.head?.map fun path => path.length - 1

def position? (s : Schedule) (agent time : Nat) : Option Nat :=
  s.paths[agent]?.bind fun path => path[time]?

end Schedule

/-- A path of `m` steps that takes an agent from its initial node to its goal, in each step along an
edge or not at all. -/
structure IsJourney (g : Graph) (m : Nat) (a : Agent) (path : List Nat) : Prop where
  length : path.length = m + 1
  start : path[0]? = some a.initial
  finish : path[m]? = some a.goal
  steps : ∀ t u v, path[t]? = some u → path[t + 1]? = some v → u = v ∨ g.hasEdge u v = true

/-- A schedule of `m` steps that solves a problem: every agent has its journey, no two agents are on
one node at a time, and no two agents change places in one step. -/
structure IsSolution (p : Problem) (m : Nat) (s : Schedule) : Prop where
  count : s.paths.length = p.agents.length
  journeys : ∀ (i : Nat) (a : Agent) (path : List Nat), p.agents[i]? = some a →
    s.paths[i]? = some path → IsJourney p.graph m a path
  apart : ∀ (a b t u v : Nat), a < b → s.position? a t = some u → s.position? b t = some v → u ≠ v
  noSwap : ∀ (a b t u v : Nat), a < b → u ≠ v → s.position? a t = some u →
    s.position? a (t + 1) = some v → s.position? b t = some v → s.position? b (t + 1) ≠ some u

end AgentPaths
