import AgentPaths.Graph

/-!
Graphs given by their nodes and edges in the order in which they were put in. A map may name any
nodes; it becomes a `Graph` of `n` nodes only if all of them are below `n`.
-/
namespace AgentPaths

structure EdgeMap where
  /-- The nodes, each once, in the order of their insertion. -/
  nodes : List Nat
  /-- The edges, each once and with the smaller node first, in the order of their insertion. -/
  edges : List (Nat × Nat)
deriving DecidableEq

namespace EdgeMap

def empty : EdgeMap := ⟨[], []⟩

def addNode (m : EdgeMap) (v : Nat) : EdgeMap :=
  if v ∈ m.nodes then m else { m with nodes := m.nodes ++ [v] }

/-- Joins two nodes; those that are missing are added first. -/
def addEdge (m : EdgeMap) (u v : Nat) : EdgeMap :=
  let m := (m.addNode u).addNode v
  let e := (min u v, max u v)
  if e ∈ m.edges then m else { m with edges := m.edges ++ [e] }

@[simp] theorem mem_nodes_addNode {m : EdgeMap} {u v : Nat} :
    u ∈ (m.addNode v).nodes ↔ u ∈ m.nodes ∨ u = v := by
  unfold addNode
  split
  next h => exact ⟨Or.inl, fun hu => hu.elim id fun he => he ▸ h⟩
  next => simp

end EdgeMap

namespace Graph

/-- A graph as a map of its nodes and edges in increasing order, isolated nodes included. -/
def toEdgeMap (g : Graph) : EdgeMap := ⟨List.range g.size, g.edges⟩

/-- Adds edges one by one, up to the first that leaves the graph. -/
def addEdges (g : Graph) : List (Nat × Nat) → Except Defect Graph
  | [] => .ok g
  | (u, v) :: rest => match g.addEdge u v with
    | .error d => .error d
    | .ok g => addEdges g rest

/-- The graph of `n` nodes with the edges of a map. The caller answers for the size; a node of the
map that is no node of the graph is a defect, and the first of them in the order of insertion is
named. -/
def ofEdgeMap [Memory] (n : Nat) (m : EdgeMap) : Except Misuse (Except Defect Graph) :=
  match ofSize n with
  | .error misuse => .error misuse
  | .ok g => .ok <| match m.nodes.find? (n ≤ ·) with
    | some v => .error (.nodeOutOfRange v n)
    | none => g.addEdges m.edges

end Graph

end AgentPaths
