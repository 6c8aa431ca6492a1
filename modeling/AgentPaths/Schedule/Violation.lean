import AgentPaths.Pairs
import AgentPaths.Schedule

/-!
Checking a schedule against a problem. All broken rules are listed: those of the single agents
first, then those of the pairs. Rules on nodes are only looked at when every agent has a path and
all paths have the length of the first.
-/
namespace AgentPaths

inductive Violation where
  | pathCount (expected found : Nat)
  | unequalLength (agent expected found : Nat)
  | wrongStart (agent expected found : Nat)
  | wrongGoal (agent expected found : Nat)
  /-- Between `time` and `time + 1` the agent goes from `u` to `v` without an edge. -/
  | missingEdge (agent time u v : Nat)
  | vertexConflict (a b time node : Nat)
  /-- Agent `a` goes from `u` to `v` while agent `b` goes from `v` to `u`. -/
  | swapConflict (a b time u v : Nat)
deriving DecidableEq

def Violation.message : Violation → String
  | pathCount expected found => s!"expected a path for each of {expected} agents, found {found}"
  | unequalLength agent expected found =>
    s!"agent #{agent} has {found} positions instead of {expected}"
  | wrongStart agent expected found =>
    s!"agent #{agent} doesn't start from the initial node #{expected}, was on #{found}"
  | wrongGoal agent expected found =>
    s!"agent #{agent} doesn't end on the goal node #{expected}, but on #{found}"
  | missingEdge agent time u v =>
    s!"agent #{agent} crosses an edge that doesn't exist at timestamp #{time}, " ++
      s!"between node #{u} and #{v}"
  | vertexConflict a b time node =>
    s!"agents #{a} and #{b} use the same node #{node} at timestamp #{time}"
  | swapConflict a b time u v =>
    s!"agents #{a} and #{b} use the same edge between nodes #{u} and #{v} at timestamp #{time}"

namespace Schedule

/-- The paths whose length is not `length`. -/
def lengthViolations (length : Nat) (paths : List (List Nat)) : List Violation :=
  paths.zipIdx.filterMap fun (path, a) =>
    if path.length = length then none else some (.unequalLength a length path.length)

/-- The steps of a path that neither wait nor follow an edge. -/
def moveViolations (g : Graph) (a : Nat) (path : List Nat) : List Violation :=
  (path.zip path.tail).zipIdx.filterMap fun ((u, v), t) =>
    if u = v ∨ g.hasEdge u v = true then none else some (.missingEdge a t u v)

/-- What is wrong with the path of agent number `a`: its start, its end, its steps. -/
def pathViolations (g : Graph) (a : Nat) (agent : Agent) (path : List Nat) : List Violation :=
  (path.head?.toList.filter (· ≠ agent.initial)).map (.wrongStart a agent.initial) ++
  (path.getLast?.toList.filter (· ≠ agent.goal)).map (.wrongGoal a agent.goal) ++
  moveViolations g a path

/-- What agents `a` and `b` do to each other at a time: they meet, or they change places. -/
def conflictsAt (a b : Nat) (pathA pathB : Array Nat) (t : Nat) : List Violation :=
  match pathA[t]?, pathB[t]? with
  | some u, some v =>
    (if u = v then [.vertexConflict a b t u] else []) ++
    match pathA[t + 1]?, pathB[t + 1]? with
    | some u', some v' => if u ≠ u' ∧ u = v' ∧ u' = v then [.swapConflict a b t u u'] else []
    | _, _ => []
  | _, _ => []

/-- What two paths, each with its agent's number, do to each other. -/
def conflicts (length : Nat) : (Array Nat × Nat) × (Array Nat × Nat) → List Violation
  | ((pathA, a), (pathB, b)) => (List.range length).flatMap (conflictsAt a b pathA pathB)

/-- All violations of the rules of a problem. -/
def violations (p : Problem) (s : Schedule) : List Violation :=
  if s.paths.length ≠ p.agents.length then [.pathCount p.agents.length s.paths.length]
  else
    let length := (s.paths.head?.map List.length).getD 0
    let lengths := lengthViolations length s.paths
    if lengths ≠ [] ∨ length = 0 then lengths
    else
      (s.paths.zip p.agents).zipIdx.flatMap (fun ((path, agent), a) =>
        pathViolations p.graph a agent path) ++
      (pairs (s.paths.map List.toArray).zipIdx).flatMap (conflicts length)

end Schedule

end AgentPaths
