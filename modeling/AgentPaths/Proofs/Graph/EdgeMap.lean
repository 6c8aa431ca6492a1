import AgentPaths.Graph.EdgeMap
import AgentPaths.Proofs.Graph.Table

/-!
Edge maps as sets. What has been put into a map is in it, an edge with the smaller node first; and a
map whose nodes are all nodes of a graph becomes the graph with its edges.
-/
namespace AgentPaths

namespace EdgeMap

variable {m : EdgeMap} {u v x : Nat} {e : Nat × Nat}

@[simp] theorem edges_addNode (m : EdgeMap) (v : Nat) : (m.addNode v).edges = m.edges := by
  unfold addNode
  split <;> rfl

theorem mem_nodes_addEdge : x ∈ (m.addEdge u v).nodes ↔ x ∈ m.nodes ∨ x = u ∨ x = v := by
  have hnodes : (m.addEdge u v).nodes = ((m.addNode u).addNode v).nodes := by
    unfold addEdge
    dsimp only
    split <;> rfl
  rw [hnodes, mem_nodes_addNode, mem_nodes_addNode, or_assoc]

theorem mem_edges_addEdge :
    e ∈ (m.addEdge u v).edges ↔ e ∈ m.edges ∨ e = (min u v, max u v) := by
  unfold addEdge
  dsimp only
  split
  next h =>
    rw [edges_addNode, edges_addNode] at h ⊢
    exact ⟨Or.inl, fun he => he.elim id fun he => he ▸ h⟩
  next => simp

/-- Adds a node with edges from it to the nodes of a list. -/
def addExits (m : EdgeMap) (v : Nat) (us : List Nat) : EdgeMap :=
  us.foldl (fun m u => m.addEdge v u) (m.addNode v)

theorem mem_nodes_addExits {us : List Nat} :
    x ∈ (m.addExits v us).nodes ↔ x ∈ m.nodes ∨ x = v ∨ x ∈ us := by
  -- the node itself is there before its edges
  have hfold (m : EdgeMap) (hv : v ∈ m.nodes) :
      x ∈ (us.foldl (fun m u => m.addEdge v u) m).nodes ↔ x ∈ m.nodes ∨ x ∈ us := by
    induction us generalizing m with
    | nil => simp
    | cons u us ih =>
      have hx : x ∈ (m.addEdge v u).nodes ↔ x ∈ m.nodes ∨ x = u := by
        rw [mem_nodes_addEdge]
        by_cases he : x = v <;> simp [he, hv]
      rw [List.foldl_cons, ih _ (mem_nodes_addEdge.mpr (Or.inl hv)), hx, List.mem_cons, or_assoc]
  rw [addExits, hfold _ (mem_nodes_addNode.mpr (Or.inr rfl)), mem_nodes_addNode, or_assoc]

theorem mem_edges_addExits {us : List Nat} : e ∈ (m.addExits v us).edges ↔
    e ∈ m.edges ∨ ∃ u ∈ us, e = (min v u, max v u) := by
  rw [addExits, ← edges_addNode m v]
  generalize m.addNode v = m
  induction us generalizing m with
  | nil => simp
  | cons u us ih =>
    rw [List.foldl_cons, ih, mem_edges_addEdge]
    simp [or_assoc]

end EdgeMap

namespace Graph

variable {g : Graph} {n : Nat} {es : List (Nat × Nat)}

theorem addEdges_eq_ok (h : ∀ e ∈ es, e.1 < g.size ∧ e.2 < g.size) :
    g.addEdges es = .ok (g.joinAll es) := by
  induction es generalizing g with
  | nil => rfl
  | cons e es ih =>
    obtain ⟨⟨hu, hv⟩, hrest⟩ := List.forall_mem_cons.mp h
    rw [addEdges, addEdge_eq_ok.mpr ⟨hu, hv, rfl⟩]
    exact ih hrest

/-- A map with no other nodes than those below `n` becomes the graph with its edges. -/
theorem ofEdgeMap_eq_ok [Memory] {m : EdgeMap} (hfits : Fits n) (hnodes : ∀ v ∈ m.nodes, v < n)
    (hedges : ∀ e ∈ m.edges, e.1 < n ∧ e.2 < n) :
    ofEdgeMap n m = .ok (.ok ((empty n).joinAll m.edges)) := by
  have hnone : m.nodes.find? (n ≤ ·) = none := by
    rw [List.find?_eq_none]
    intro v hv
    simpa using hnodes v hv
  have hsize : ofSize n = .ok (empty n) := if_pos hfits
  rw [ofEdgeMap, hsize]
  dsimp only
  rw [hnone]
  dsimp only
  rw [addEdges_eq_ok hedges]

end Graph

end AgentPaths
