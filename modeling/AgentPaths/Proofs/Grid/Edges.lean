import AgentPaths.Proofs.Graph.EdgeMap
import AgentPaths.Proofs.Grid.Features

/-!
The edges of a grid. They are laid from each cell to the right and down; what comes of it is that
cells next to each other are joined, unless one of them is a wall or the two have been cut apart.
-/
namespace AgentPaths

namespace Cell

/-- The second cell is the one to the right of the first, or the one below it. -/
def Ahead (c c' : Cell) : Prop := c.y = c'.y ∧ c.x + 1 = c'.x ∨ c.x = c'.x ∧ c.y + 1 = c'.y

/-- The cells are side by side, or one above the other. -/
def Adjacent (c c' : Cell) : Prop := c.Ahead c' ∨ c'.Ahead c

end Cell

theorem Dims.node_inj {d : Dims} {c c' : Cell} (h : d.Contains c) (h' : d.Contains c')
    (he : d.node c = d.node c') : c = c' := by
  rw [← cell_node h.1, he, cell_node h'.1]

/-- On a grid that a graph can have, no step from one cell to another passes the largest word. -/
theorem Dims.lt_wordBound [Memory] {d : Dims} (h : Fits d.size) :
    d.width < wordBound ∧ d.height < wordBound := by
  have hwidth : d.width ≤ d.size := Nat.le_mul_of_pos_right _ d.height_pos
  have hheight : d.height ≤ d.size := Nat.le_mul_of_pos_left _ d.width_pos
  have := h.1
  omega

namespace Step

variable {d : Dims} {c c' : Cell}

/-- The steps forward lead to the cells ahead. -/
theorem mem_forward [Memory] (hfits : Fits d.size) (hc : d.Contains c) :
    c' ∈ forward.map (·.move c) ↔ c.Ahead c' := by
  have hword := Dims.lt_wordBound hfits
  simp only [forward, List.map_cons, List.map_nil, List.mem_cons, List.not_mem_nil, or_false, move,
    succ_of_lt hc.1 hword.1, succ_of_lt hc.2 hword.2, Cell.Ahead]
  cases c'
  simp only [Cell.mk.injEq]
  omega

theorem between?_of_ahead [Memory] (hfits : Fits d.size) (hc : d.Contains c) (hc' : d.Contains c')
    (h : c.Ahead c') : (between? c c').isSome = true ∧ (between? c' c).isSome = true := by
  have hword := Dims.lt_wordBound hfits
  obtain ⟨x, y⟩ := c
  obtain ⟨x', y'⟩ := c'
  have hx : x' < d.width := hc'.1
  have hy : y' < d.height := hc'.2
  rw [between?_isSome, between?_isSome]
  rcases h with ⟨hrow, hnext⟩ | ⟨hcolumn, hnext⟩
  · dsimp only at hrow hnext
    subst hrow hnext
    refine ⟨⟨right, ?_⟩, ⟨left, ?_⟩⟩
    · show Cell.mk (succ x) y = ⟨x + 1, y⟩
      rw [succ_of_lt hc.1 hword.1]
    · show Cell.mk (pred (x + 1)) y = ⟨x, y⟩
      rw [pred_succ (by omega)]
  · dsimp only at hcolumn hnext
    subst hcolumn hnext
    refine ⟨⟨down, ?_⟩, ⟨up, ?_⟩⟩
    · show Cell.mk x (succ y) = ⟨x, y + 1⟩
      rw [succ_of_lt hc.2 hword.2]
    · show Cell.mk x (pred (y + 1)) = ⟨x, y⟩
      rw [pred_succ (by omega)]

end Step

namespace GridBuilder

variable {b : GridBuilder} {d : Dims} {fs gs : List Feature} {c c' : Cell}

/-- Nothing keeps the cells apart: neither is a wall, and they have not been cut in either order. -/
structure Open (fs : List Feature) (c c' : Cell) : Prop where
  left : .wall c ∉ fs
  right : .wall c' ∉ fs
  forth : .cut c c' ∉ fs
  back : .cut c' c ∉ fs

theorem Open.symm (h : Open fs c c') : Open fs c' c := ⟨h.right, h.left, h.back, h.forth⟩

theorem open_iff : Open fs c c' ↔
    .wall c ∉ fs ∧ .wall c' ∉ fs ∧ .cut c c' ∉ fs ∧ .cut c' c ∉ fs :=
  ⟨fun h => ⟨h.left, h.right, h.forth, h.back⟩, fun h => ⟨h.1, h.2.1, h.2.2.1, h.2.2.2⟩⟩

/-- The cells ahead of a cell that it has an edge to. -/
def exits (b : GridBuilder) (c : Cell) : List Cell :=
  (Step.forward.map (·.move c)).filter (b.connects c)

theorem mem_edges_iff : (c, c') ∈ b.edges ↔ c ∈ b.dims.cells ∧ c' ∈ b.exits c := by
  simp only [edges, exits, List.mem_flatMap, List.mem_map, Prod.mk.injEq]
  constructor
  · intro h
    obtain ⟨e, he, e', he', rfl, rfl⟩ := h
    exact ⟨he, he'⟩
  · intro h
    exact ⟨c, h.1, c', h.2, rfl, rfl⟩

theorem Holds.mem_edges [Memory] (h : b.Holds d fs) (hfits : Fits d.size) : (c, c') ∈ b.edges ↔
    d.Contains c ∧ d.Contains c' ∧ c.Ahead c' ∧ Open fs c c' := by
  have hmem : (c, c') ∈ b.edges ↔ d.Contains c ∧ c' ∈ Step.forward.map (·.move c) ∧
      b.connects c c' = true := by
    rw [mem_edges_iff, exits, List.mem_filter, Dims.mem_cells, h.dims]
  have hconnects : b.connects c c' = true ↔ d.Contains c' ∧ .wall c ∉ fs ∧ .wall c' ∉ fs ∧
      (c, c') ∉ b.cuts ∧ (c', c) ∉ b.cuts := by
    simp [connects, h.dims, h.walls, and_assoc]
  rw [hmem, hconnects, h.cuts, h.cuts]
  constructor
  · intro hall
    obtain ⟨hc, hstep, hc', hwall, hwall', hcut, hcut'⟩ := hall
    have hahead := (Step.mem_forward hfits hc).mp hstep
    have hbetween := Step.between?_of_ahead hfits hc hc' hahead
    exact ⟨hc, hc', hahead, hwall, hwall', fun he => hcut ⟨he, hbetween.1⟩,
      fun he => hcut' ⟨he, hbetween.2⟩⟩
  · intro hall
    obtain ⟨hc, hc', hahead, hopen⟩ := hall
    exact ⟨hc, (Step.mem_forward hfits hc).mpr hahead, hc', hopen.left, hopen.right,
      fun he => hopen.forth he.1, fun he => hopen.back he.1⟩

theorem graph_eq (b : GridBuilder) : b.graph = (Graph.empty b.dims.size).joinAll
    (b.edges.map fun e => (b.dims.node e.1, b.dims.node e.2)) := by
  rw [graph, Graph.joinAll, List.foldl_map]

theorem size_graph (b : GridBuilder) : b.graph.size = b.dims.size := by
  rw [graph_eq, Graph.size_joinAll, Graph.size_empty]

/-- The edges join the adjacent cells that nothing keeps apart. -/
theorem Holds.hasEdge_graph [Memory] (h : b.Holds d fs) (hfits : Fits d.size) (hc : d.Contains c)
    (hc' : d.Contains c') : b.graph.hasEdge (d.node c) (d.node c') = true ↔
      c.Adjacent c' ∧ Open fs c c' := by
  have hnode {e e' : Cell} (he : d.Contains e) (he' : d.Contains e') :
      (d.node e, d.node e') ∈ b.edges.map (fun e => (d.node e.1, d.node e.2)) ↔
        e.Ahead e' ∧ Open fs e e' := by
    rw [List.mem_map]
    constructor
    · intro hex
      obtain ⟨⟨a, a'⟩, hmem, heq⟩ := hex
      obtain ⟨ha, ha', hrest⟩ := (h.mem_edges hfits).mp hmem
      obtain rfl := Dims.node_inj ha he (congrArg Prod.fst heq)
      obtain rfl := Dims.node_inj ha' he' (congrArg Prod.snd heq)
      exact hrest
    · intro hrest
      exact ⟨(e, e'), (h.mem_edges hfits).mpr ⟨he, he', hrest⟩, rfl⟩
  have hinside : ∀ e ∈ b.edges.map (fun e => (d.node e.1, d.node e.2)),
      e.1 < (Graph.empty d.size).size ∧ e.2 < (Graph.empty d.size).size := by
    intro e he
    obtain ⟨⟨a, a'⟩, hmem, rfl⟩ := List.mem_map.mp he
    obtain ⟨ha, ha', _⟩ := (h.mem_edges hfits).mp hmem
    exact ⟨Dims.node_lt ha, Dims.node_lt ha'⟩
  rw [graph_eq, h.dims, Graph.hasEdge_joinAll hinside, Graph.hasEdge_empty, hnode hc hc',
    hnode hc' hc, Cell.Adjacent, or_and_right]
  have hcomm : Open fs c' c ↔ Open fs c c' := ⟨Open.symm, Open.symm⟩
  simp [hcomm]

/-- The edges as a map that is filled cell by cell, each cell with its exits. -/
def edgeMap (b : GridBuilder) : EdgeMap :=
  b.dims.cells.foldl (fun m c => m.addExits (b.dims.node c) ((b.exits c).map b.dims.node)) .empty

theorem mem_edgeMap (b : GridBuilder) :
    (∀ x, x ∈ b.edgeMap.nodes ↔ ∃ c ∈ b.dims.cells, x = b.dims.node c ∨
      ∃ c' ∈ b.exits c, x = b.dims.node c') ∧
    ∀ e, e ∈ b.edgeMap.edges ↔ ∃ c ∈ b.dims.cells, ∃ c' ∈ b.exits c,
      e = (min (b.dims.node c) (b.dims.node c'), max (b.dims.node c) (b.dims.node c')) := by
  unfold edgeMap
  -- the cells so far, on top of any map
  have hfold (cs : List Cell) (m : EdgeMap) :
      let filled := cs.foldl
        (fun m c => m.addExits (b.dims.node c) ((b.exits c).map b.dims.node)) m
      (∀ x, x ∈ filled.nodes ↔ x ∈ m.nodes ∨ ∃ c ∈ cs, x = b.dims.node c ∨
        ∃ c' ∈ b.exits c, x = b.dims.node c') ∧
      ∀ e, e ∈ filled.edges ↔ e ∈ m.edges ∨ ∃ c ∈ cs, ∃ c' ∈ b.exits c,
        e = (min (b.dims.node c) (b.dims.node c'), max (b.dims.node c) (b.dims.node c')) := by
    induction cs generalizing m with
    | nil => simp
    | cons c cs ih =>
      constructor
      · intro x
        rw [List.foldl_cons, (ih _).1, EdgeMap.mem_nodes_addExits]
        simp [or_assoc, eq_comm]
      · intro e
        rw [List.foldl_cons, (ih _).2, EdgeMap.mem_edges_addExits]
        simp [or_assoc]
  simpa [EdgeMap.empty] using hfold b.dims.cells .empty

/-- The map becomes the graph. -/
theorem Holds.ofEdgeMap_edgeMap [Memory] (h : b.Holds d fs) (hfits : Fits d.size) :
    Graph.ofEdgeMap d.size b.edgeMap = .ok (.ok b.graph) := by
  obtain rfl := h.dims
  obtain ⟨hnodes, hedges⟩ := mem_edgeMap b
  have hinside {c c' : Cell} (hc : c ∈ b.dims.cells) (hc' : c' ∈ b.exits c) :
      b.dims.node c < b.dims.size ∧ b.dims.node c' < b.dims.size := by
    have hcells := (h.mem_edges hfits).mp (mem_edges_iff.mpr ⟨hc, hc'⟩)
    exact ⟨Dims.node_lt hcells.1, Dims.node_lt hcells.2.1⟩
  have hmapped : ∀ e ∈ b.edgeMap.edges, e.1 < b.dims.size ∧ e.2 < b.dims.size := by
    intro e he
    obtain ⟨c, hc, c', hc', rfl⟩ := (hedges e).mp he
    have := hinside hc hc'
    exact ⟨by omega, by omega⟩
  have hmap : Graph.ofEdgeMap b.dims.size b.edgeMap =
      .ok (.ok ((Graph.empty b.dims.size).joinAll b.edgeMap.edges)) := by
    apply Graph.ofEdgeMap_eq_ok hfits _ hmapped
    intro v hv
    obtain ⟨c, hc, rfl | ⟨c', hc', rfl⟩⟩ := (hnodes v).mp hv
    · exact Dims.node_lt (Dims.mem_cells.mp hc)
    · exact (hinside hc hc').2
  have hjoined : ∀ e ∈ b.edges.map (fun e => (b.dims.node e.1, b.dims.node e.2)),
      e.1 < b.dims.size ∧ e.2 < b.dims.size := by
    intro e he
    obtain ⟨⟨c, c'⟩, hmem, rfl⟩ := List.mem_map.mp he
    obtain ⟨hc, hc'⟩ := mem_edges_iff.mp hmem
    exact hinside hc hc'
  rw [hmap, graph_eq]
  congr 2
  apply Graph.ext_hasEdge (by simp)
  intro u v
  rw [Graph.hasEdge_joinAll hmapped, Graph.hasEdge_joinAll hjoined, hedges, hedges]
  have hpair (x y : Nat) : (u, v) = (min x y, max x y) ∨ (v, u) = (min x y, max x y) ↔
      (x, y) = (u, v) ∨ (x, y) = (v, u) := by
    simp only [Prod.mk.injEq]
    omega
  simp only [List.mem_map, Prod.exists, mem_edges_iff, and_assoc, ← exists_and_left, ← exists_or,
    ← and_or_left, hpair]

end GridBuilder

end AgentPaths
