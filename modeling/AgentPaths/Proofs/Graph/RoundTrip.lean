import AgentPaths.Proofs.Graph.EdgeMap
import AgentPaths.Proofs.Graph.EdgeSet
import Mathlib.Data.List.Induction

/-!
Graphs as maps, and maps as graphs. A graph comes back from its map. A map becomes a graph that has
its edges and no others, whose own map has all nodes below the size in increasing order; or it is
refused for the first of its nodes that is too large.
-/
namespace AgentPaths

namespace EdgeMap

variable {m : EdgeMap} {u v : Nat} {ns : List Nat} {es : List (Nat × Nat)}

/-- A map is a set of nodes and a set of edges between them, each edge with the smaller node
first. -/
structure Lawful (m : EdgeMap) : Prop where
  nodes : m.nodes.Nodup
  edges : m.edges.Nodup
  ordered : ∀ e ∈ m.edges, e.1 ≤ e.2
  ends : ∀ e ∈ m.edges, e.1 ∈ m.nodes ∧ e.2 ∈ m.nodes

/-- The map that is filled with nodes first and with edges after them. -/
def fill (ns : List Nat) (es : List (Nat × Nat)) : EdgeMap :=
  es.foldl (fun m e => m.addEdge e.1 e.2) (ns.foldl addNode empty)

theorem addNode_of_mem (h : v ∈ m.nodes) : m.addNode v = m := if_pos h

theorem addNode_of_notMem (h : v ∉ m.nodes) : m.addNode v = ⟨m.nodes ++ [v], m.edges⟩ := if_neg h

/-- Between nodes that are there already, an edge goes behind the others unless it is there too. -/
theorem addEdge_of_mem (hu : u ∈ m.nodes) (hv : v ∈ m.nodes) : m.addEdge u v =
    if (min u v, max u v) ∈ m.edges then m else ⟨m.nodes, m.edges ++ [(min u v, max u v)]⟩ := by
  rw [addEdge, addNode_of_mem hu, addNode_of_mem hv]

theorem lawful_empty : empty.Lawful where
  nodes := List.nodup_nil
  edges := List.nodup_nil
  ordered := by simp [empty]
  ends := by simp [empty]

theorem Lawful.addNode (h : m.Lawful) (v : Nat) : (m.addNode v).Lawful := by
  by_cases hv : v ∈ m.nodes
  · rwa [addNode_of_mem hv]
  · rw [addNode_of_notMem hv, ← List.concat_eq_append]
    refine ⟨h.nodes.concat hv, h.edges, h.ordered, fun e he => ?_⟩
    have hends := h.ends e he
    simp [hends]

theorem Lawful.addEdge_of_mem (h : m.Lawful) (hu : u ∈ m.nodes) (hv : v ∈ m.nodes) :
    (m.addEdge u v).Lawful := by
  rw [EdgeMap.addEdge_of_mem hu hv]
  split
  next => exact h
  next hnew =>
    rw [← List.concat_eq_append]
    refine ⟨h.nodes, h.edges.concat hnew, ?_, ?_⟩
    · rw [List.concat_eq_append, List.forall_mem_append, List.forall_mem_singleton]
      exact ⟨h.ordered, Nat.le_trans (Nat.min_le_left u v) (Nat.le_max_left u v)⟩
    · rw [List.concat_eq_append, List.forall_mem_append, List.forall_mem_singleton]
      refine ⟨h.ends, ?_⟩
      rcases Nat.le_total u v with huv | hvu
      · simp [huv, hu, hv]
      · simp [hvu, hu, hv]

theorem Lawful.addEdge (h : m.Lawful) (u v : Nat) : (m.addEdge u v).Lawful := by
  have hu : u ∈ ((m.addNode u).addNode v).nodes := by simp
  have hv : v ∈ ((m.addNode u).addNode v).nodes := by simp
  have hsame : m.addEdge u v = ((m.addNode u).addNode v).addEdge u v := by
    rw [EdgeMap.addEdge_of_mem hu hv, EdgeMap.addEdge]
  rw [hsame]
  exact ((h.addNode u).addNode v).addEdge_of_mem hu hv

theorem lawful_fill (ns : List Nat) (es : List (Nat × Nat)) : (fill ns es).Lawful :=
  List.foldlRecOn es _ (List.foldlRecOn ns _ lawful_empty fun _ h v _ => h.addNode v)
    fun _ h e _ => h.addEdge e.1 e.2

theorem foldl_addNode (h : ns.Nodup) : ns.foldl addNode empty = ⟨ns, []⟩ := by
  induction ns using List.reverseRecOn with
  | nil => rfl
  | append_singleton ns v ih =>
    obtain ⟨hns, -, hv⟩ := List.nodup_append.mp h
    have hnew : v ∉ ns := fun hmem => hv v hmem v List.mem_cons_self rfl
    rw [List.foldl_concat, ih hns, addNode_of_notMem hnew]

theorem foldl_addEdge (h : es.Nodup) (hordered : ∀ e ∈ es, e.1 ≤ e.2)
    (hends : ∀ e ∈ es, e.1 ∈ ns ∧ e.2 ∈ ns) :
    es.foldl (fun m e => addEdge m e.1 e.2) ⟨ns, []⟩ = ⟨ns, es⟩ := by
  induction es using List.reverseRecOn with
  | nil => rfl
  | append_singleton es e ih =>
    obtain ⟨hes, -, he⟩ := List.nodup_append.mp h
    have hnew : e ∉ es := fun hmem => he e hmem e List.mem_cons_self rfl
    rw [List.forall_mem_append, List.forall_mem_singleton] at hordered hends
    rw [List.foldl_concat, ih hes hordered.1 hends.1, addEdge_of_mem hends.2.1 hends.2.2,
      Nat.min_eq_left hordered.2, Nat.max_eq_right hordered.2, if_neg hnew]

/-- Every lawful map is one that has been filled. -/
theorem Lawful.fill_eq (h : m.Lawful) : fill m.nodes m.edges = m := by
  rw [fill, foldl_addNode h.nodes]
  exact foldl_addEdge h.edges h.ordered h.ends

end EdgeMap

namespace Graph

variable {g : Graph} {m : EdgeMap} {n : Nat} {es : List (Nat × Nat)}

/-- The graphs that there are: those that are begun without edges or come of a map, and what further
edges make of them. -/
inductive Made [Memory] : Graph → Prop
  | ofSize? {n : Nat} {g : Graph} : Graph.ofSize? n = .ok g → Made g
  | ofSize {n : Nat} {g : Graph} : Graph.ofSize n = .ok g → Made g
  | ofEdgeMap {n : Nat} {m : EdgeMap} {g : Graph} : Graph.ofEdgeMap n m = .ok (.ok g) → Made g
  | addEdge {g g' : Graph} {u v : Nat} : Made g → g.addEdge u v = .ok g' → Made g'

theorem ofSize_eq_ok [Memory] : ofSize n = .ok g ↔ Fits n ∧ g = empty n := by
  unfold ofSize
  split
  next h => rw [Except.ok.injEq, and_iff_right h, eq_comm]
  next h => exact iff_of_false (by simp) fun hboth => h hboth.1

theorem size_of_addEdges {g' : Graph} (h : g.addEdges es = .ok g') : g'.size = g.size := by
  induction es generalizing g with
  | nil =>
    cases h
    rfl
  | cons e es ih =>
    rw [addEdges] at h
    split at h
    next => cases h
    next joined hjoined =>
      obtain ⟨-, -, rfl⟩ := addEdge_eq_ok.mp hjoined
      exact (ih h).trans (size_join g e.1 e.2)

/-- What a map becomes, if the size fits: its first node that is too large decides. -/
theorem ofEdgeMap_of_fits [Memory] (h : Fits n) (m : EdgeMap) : ofEdgeMap n m =
    .ok (match m.nodes.find? (n ≤ ·) with
      | some v => .error (.nodeOutOfRange v n)
      | none => (empty n).addEdges m.edges) := by
  have hsize : ofSize n = .ok (empty n) := ofSize_eq_ok.mpr ⟨h, rfl⟩
  unfold ofEdgeMap
  split
  next misuse hmisuse => cases hsize.symm.trans hmisuse
  next g hg =>
    cases hsize.symm.trans hg
    rfl

theorem ofEdgeMap_of_not_fits [Memory] (h : ¬Fits n) (m : EdgeMap) :
    ofEdgeMap n m = .error (.graphTooLarge n) := by
  rw [ofEdgeMap, ofSize, if_neg h]

theorem Made.fits [Memory] (h : Made g) : Fits g.size := by
  induction h with
  | ofSize? h =>
    obtain ⟨hfits, rfl⟩ := ofSize?_eq_ok.mp h
    exact hfits
  | ofSize h =>
    obtain ⟨hfits, rfl⟩ := ofSize_eq_ok.mp h
    exact hfits
  | @ofEdgeMap n m g h =>
    by_cases hfits : Fits n
    · rw [ofEdgeMap_of_fits hfits, Except.ok.injEq] at h
      split at h
      next => cases h
      next => rwa [size_of_addEdges h]
    · rw [ofEdgeMap_of_not_fits hfits] at h
      cases h
  | addEdge _ h hfits =>
    obtain ⟨-, -, rfl⟩ := addEdge_eq_ok.mp h
    exact hfits

theorem Made.joinAll [Memory] (h : Made g) (hes : ∀ e ∈ es, e.1 < g.size ∧ e.2 < g.size) :
    Made (g.joinAll es) := by
  induction es generalizing g with
  | nil => exact h
  | cons e es ih =>
    obtain ⟨⟨hu, hv⟩, hes⟩ := List.forall_mem_cons.mp hes
    exact ih (.addEdge h (addEdge_eq_ok.mpr ⟨hu, hv, rfl⟩)) hes

/-- Every graph whose table fits can be made. -/
theorem made_iff_fits [Memory] : Made g ↔ Fits g.size := by
  constructor
  · exact Made.fits
  · intro h
    have hempty : Made (empty g.size) := .ofSize? (ofSize?_eq_ok.mpr ⟨h, rfl⟩)
    have hinside : ∀ e ∈ g.edges, e.1 < g.size ∧ e.2 < g.size := fun e he =>
      lt_of_hasEdge (mem_edges.mp he).2
    exact g.joinAll_edges ▸ hempty.joinAll hinside

theorem lawful_toEdgeMap (g : Graph) : g.toEdgeMap.Lawful where
  nodes := List.nodup_range
  edges := g.nodup_edges
  ordered _ he := (mem_edges.mp he).1
  ends _ he := by
    have hlt := lt_of_hasEdge (mem_edges.mp he).2
    exact ⟨List.mem_range.mpr hlt.1, List.mem_range.mpr hlt.2⟩

/-- The map of a graph is filled with all nodes, isolated ones included, and then with the edges. -/
theorem toEdgeMap_eq_fill (g : Graph) : g.toEdgeMap = .fill (List.range g.size) g.edges :=
  g.lawful_toEdgeMap.fill_eq.symm

theorem ofEdgeMap_of_lawful [Memory] (hfits : Fits n) (hm : m.Lawful)
    (hnodes : ∀ v ∈ m.nodes, v < n) : ofEdgeMap n m = .ok (.ok ((empty n).joinAll m.edges)) :=
  ofEdgeMap_eq_ok hfits hnodes fun e he =>
    ⟨hnodes _ (hm.ends e he).1, hnodes _ (hm.ends e he).2⟩

theorem ofEdgeMap_toEdgeMap [Memory] (h : Fits g.size) :
    ofEdgeMap g.size g.toEdgeMap = .ok (.ok g) := by
  have hback : (empty g.size).joinAll g.toEdgeMap.edges = g := g.joinAll_edges
  rw [ofEdgeMap_of_lawful h g.lawful_toEdgeMap fun v hv => List.mem_range.mp hv, hback]

/-- The edges of the graph that comes of a map are those of the map. -/
theorem edges_joinAll_perm (hm : m.Lawful) (hnodes : ∀ v ∈ m.nodes, v < n) :
    ((empty n).joinAll m.edges).edges.Perm m.edges := by
  have hinside : ∀ e ∈ m.edges, e.1 < (empty n).size ∧ e.2 < (empty n).size := fun e he =>
    ⟨hnodes _ (hm.ends e he).1, hnodes _ (hm.ends e he).2⟩
  rw [List.perm_ext_iff_of_nodup (nodup_edges _) hm.edges]
  rintro ⟨u, v⟩
  rw [mem_edges, hasEdge_joinAll hinside, hasEdge_empty]
  constructor
  · rintro ⟨hle, hnone | he | he⟩
    · cases hnone
    · exact he
    · -- an edge that is put in the other order has equal ends
      obtain rfl := Nat.le_antisymm hle (hm.ordered _ he)
      exact he
  · intro he
    exact ⟨hm.ordered _ he, Or.inr (Or.inl he)⟩

/-- Of the nodes, in the order of insertion, `v` is the first that a graph of `n` nodes lacks. -/
def FirstBeyond (n : Nat) (ns : List Nat) (v : Nat) : Prop :=
  ∃ before rest, ns = before ++ v :: rest ∧ (∀ u ∈ before, u < n) ∧ n ≤ v

theorem find?_eq_some_iff_firstBeyond {ns : List Nat} {v : Nat} :
    ns.find? (n ≤ ·) = some v ↔ FirstBeyond n ns v := by
  rw [List.find?_eq_some_iff_append]
  constructor
  · rintro ⟨hle, before, rest, rfl, hbefore⟩
    exact ⟨before, rest, rfl, by simpa using hbefore, of_decide_eq_true hle⟩
  · rintro ⟨before, rest, rfl, hbefore, hle⟩
    exact ⟨decide_eq_true hle, before, rest, rfl, by simpa using hbefore⟩

/-- A map with a node that the graph lacks is refused for the first one. -/
theorem ofEdgeMap_of_beyond [Memory] (hfits : Fits n) {v : Nat} (hv : v ∈ m.nodes) (hle : n ≤ v) :
    ∃ w, FirstBeyond n m.nodes w ∧ ofEdgeMap n m = .ok (.error (.nodeOutOfRange w n)) := by
  cases hfind : m.nodes.find? (n ≤ ·) with
  | none =>
    rw [List.find?_eq_none] at hfind
    exact absurd (decide_eq_true hle) (hfind v hv)
  | some w =>
    refine ⟨w, find?_eq_some_iff_firstBeyond.mp hfind, ?_⟩
    rw [ofEdgeMap_of_fits hfits, hfind]

/-- Every graph comes back from its map, which is filled with its nodes and its edges. A map whose
nodes are nodes of a graph that can be made becomes one with these edges and all nodes; any other is
refused for its first node that is too large. -/
theorem edgeMap_round_trip [Memory] :
    (∀ g : Graph, g.Made → g.toEdgeMap = .fill (List.range g.size) g.edges ∧
      ofEdgeMap g.size g.toEdgeMap = .ok (.ok g)) ∧
    ∀ n m, (∃ g, ofSize? n = .ok g) → m.Lawful →
      ((∀ v ∈ m.nodes, v < n) → ∃ g, ofEdgeMap n m = .ok (.ok g) ∧
        g.toEdgeMap.nodes = List.range n ∧ g.toEdgeMap.edges.Perm m.edges) ∧
      ∀ v ∈ m.nodes, n ≤ v →
        ∃ w, FirstBeyond n m.nodes w ∧ ofEdgeMap n m = .ok (.error (.nodeOutOfRange w n)) := by
  constructor
  · intro g hg
    exact ⟨g.toEdgeMap_eq_fill, ofEdgeMap_toEdgeMap hg.fits⟩
  · rintro n m ⟨_, hofSize⟩ hm
    have hfits := (ofSize?_eq_ok.mp hofSize).1
    constructor
    · intro hnodes
      refine ⟨_, ofEdgeMap_of_lawful hfits hm hnodes, ?_, edges_joinAll_perm hm hnodes⟩
      rw [toEdgeMap, size_joinAll, size_empty]
    · intro v hv hle
      exact ofEdgeMap_of_beyond hfits hv hle

/-- Nodes in no order, a loop, and an edge that is put in both ways. -/
def scattered : EdgeMap := .fill [5, 0] [(7, 1), (1, 1), (1, 7)]

section

attribute [local instance] Memory.ample

theorem edgeMap_round_trip_scattered :
    (Made ((empty 4).afterCalls callsOnFour) ∧
      ofEdgeMap 4 ((empty 4).afterCalls callsOnFour).toEdgeMap =
        .ok (.ok ((empty 4).afterCalls callsOnFour))) ∧
    scattered.Lawful ∧
    (ofSize? 8 = .ok (empty 8) ∧ (∀ v ∈ scattered.nodes, v < 8) ∧
      ∃ g, ofEdgeMap 8 scattered = .ok (.ok g) ∧ g.toEdgeMap.nodes = List.range 8 ∧
        g.toEdgeMap.edges.Perm [(1, 7), (1, 1)]) ∧
    (ofSize? 4 = .ok (empty 4) ∧ 7 ∈ scattered.nodes ∧ 4 ≤ 7 ∧
      ∃ w, FirstBeyond 4 scattered.nodes w ∧
        ofEdgeMap 4 scattered = .ok (.error (.nodeOutOfRange w 4))) := by
  have hmade : Made ((empty 4).afterCalls callsOnFour) := made_iff_fits.mpr (by decide)
  have hlawful : scattered.Lawful := EdgeMap.lawful_fill _ _
  have height : ofSize? 8 = .ok (empty 8) := by decide
  have hfour : ofSize? 4 = .ok (empty 4) := by decide
  have hnodes : ∀ v ∈ scattered.nodes, v < 8 := by decide
  have hseven : 7 ∈ scattered.nodes := by decide
  obtain ⟨hgraphs, hmaps⟩ := edgeMap_round_trip
  exact ⟨⟨hmade, (hgraphs _ hmade).2⟩, hlawful,
    ⟨height, hnodes, (hmaps 8 scattered ⟨_, height⟩ hlawful).1 hnodes⟩,
    hfour, hseven, by decide, (hmaps 4 scattered ⟨_, hfour⟩ hlawful).2 7 hseven (by decide)⟩

end

end Graph

end AgentPaths
