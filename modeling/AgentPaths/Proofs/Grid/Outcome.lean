import AgentPaths.Proofs.Grid.Edges
import AgentPaths.Proofs.Problem.Faults

/-!
What comes of a grid that is described feature by feature: the first reason against it, or the grid.
Of the order of the calls nothing counts but that of the agents among themselves, and no call counts
after one that has left the grid.
-/
namespace AgentPaths

/-- Where there can be a graph of so many cells there can be the map of them before. -/
theorem Fits.builder_lack? [Memory] {n : Nat} (h : Fits n) : GridBuilder.lack? n = none := by
  obtain ⟨_, hmul, hholds⟩ := h
  have htriangle : Memory.lack? (triangle n) = none := by
    refine Memory.lack?_eq_none.mpr ⟨?_, hholds⟩
    unfold triangle
    show n * (n + 1) / 2 < 0x8000000000000000
    have hword : n * (n + 1) < 0x10000000000000000 := hmul
    omega
  by_cases hfew : n ≤ 80
  · exact Memory.lack?_of_le (Nat.le_trans (Nat.mul_le_mul_left 40 hfew) (by decide))
  · refine Memory.lack?_mono ?_ htriangle
    have hmany : 80 * n ≤ n * (n + 1) := by
      rw [Nat.mul_comm]
      exact Nat.mul_le_mul_left n (by omega)
    unfold triangle
    omega

namespace GridBuilder

variable {b : GridBuilder} {d : Dims} {fs gs : List Feature}

/-- A feature names a cell that is not on the grid. -/
def Outside (d : Dims) (fs : List Feature) : Prop := ∃ f ∈ fs, ∃ c ∈ f.cells, ¬d.Contains c

/-- An agent starts or finishes on a wall, whichever of the two came first. -/
def OnWall (fs : List Feature) : Prop :=
  ∃ initial goal, .agent initial goal ∈ fs ∧ (.wall initial ∈ fs ∨ .wall goal ∈ fs)

/-- Two agents start in the same cell, or finish in the same cell. -/
def Shared (fs : List Feature) : Prop := ∃ (i j : Nat) (a a' : Cell × Cell), i < j ∧
  (travels fs)[i]? = some a ∧ (travels fs)[j]? = some a' ∧ (a.1 = a'.1 ∨ a.2 = a'.2)

/-- The agents by the numbers of their cells. -/
def numbered (d : Dims) (fs : List Feature) : List Agent :=
  (travels fs).map fun a => ⟨a.1.x + a.1.y * d.width, a.2.x + a.2.y * d.width⟩

/-- The grid is the one that the features describe. -/
structure Describes (d : Dims) (fs : List Feature) (g : Grid) : Prop where
  dims : g.dims = d
  size : g.problem.graph.size = d.width * d.height
  /-- Every node is a cell. -/
  cells : ∀ v < d.width * d.height, ∃ c, d.Contains c ∧ v = c.x + c.y * d.width
  edges : ∀ c c', d.Contains c → d.Contains c' →
    (g.problem.graph.hasEdge (c.x + c.y * d.width) (c'.x + c'.y * d.width) = true ↔
      c.Adjacent c' ∧ Open fs c c')
  agents : g.problem.agents = numbered d fs
  walls : ∀ c, c ∈ g.walls ↔ .wall c ∈ fs

/-- What comes of the features: the first reason against a grid, or the grid. -/
inductive Outcome (d : Dims) (fs : List Feature) : Except BuildError Grid → Prop
  | outside : Outside d fs → Outcome d fs (.error (.invalid [.featureOutOfBounds]))
  | onWall : ¬Outside d fs → OnWall fs → Outcome d fs (.error (.invalid [.agentOnWall]))
  | shared {e : Defect} : ¬Outside d fs → ¬OnWall fs → Shared fs →
      (∀ g : Graph, g.size = d.width * d.height → Problem.ofAgents g (numbered d fs) = .error e) →
      Outcome d fs (.error (.invalid [.defect e]))
  | built {g : Grid} : ¬Outside d fs → ¬OnWall fs → ¬Shared fs → Describes d fs g →
      Outcome d fs (.ok g)

theorem not_outside : ¬Outside d fs ↔ ∀ f ∈ fs, f.Inside d := by
  simp [Outside, Feature.Inside]

theorem mem_travels {i g : Cell} : (i, g) ∈ travels fs ↔ .agent i g ∈ fs := by
  simp only [travels, List.mem_filterMap]
  constructor
  · intro h
    obtain ⟨f, hf, he⟩ := h
    cases f with
    | agent i' g' =>
      cases he
      exact hf
    | wall c => cases he
    | cut c c' => cases he
  · intro h
    exact ⟨_, h, rfl⟩

theorem contains_of_mem_travels (hin : ∀ f ∈ fs, f.Inside d) {a : Cell × Cell}
    (ha : a ∈ travels fs) : d.Contains a.1 ∧ d.Contains a.2 := by
  have hcells := hin _ (mem_travels.mp ha)
  exact ⟨hcells a.1 (by simp [Feature.cells]), hcells a.2 (by simp [Feature.cells])⟩

theorem inside_of_mem_numbered (hin : ∀ f ∈ fs, f.Inside d) :
    ∀ a ∈ numbered d fs, a.initial < d.size ∧ a.goal < d.size := by
  intro a ha
  obtain ⟨cells, hcells, rfl⟩ := List.mem_map.mp ha
  have hcontains := contains_of_mem_travels hin hcells
  exact ⟨Dims.node_lt hcontains.1, Dims.node_lt hcontains.2⟩

/-- Agents share a node just if they share a cell. -/
theorem shared_iff_clashes (hin : ∀ f ∈ fs, f.Inside d) :
    Shared fs ↔ ∃ j, Clashes (numbered d fs) j := by
  simp only [Shared, Clashes, numbered, List.getElem?_map, Option.map_eq_some_iff]
  constructor
  · intro h
    obtain ⟨i, j, a, a', hij, ha, ha', hsame⟩ := h
    refine ⟨j, i, hij, _, _, ⟨a, ha, rfl⟩, ⟨a', ha', rfl⟩, ?_⟩
    rcases hsame with hsame | hsame
    · simp [hsame]
    · simp [hsame]
  · intro h
    obtain ⟨j, i, hij, _, _, ⟨a, ha, rfl⟩, ⟨a', ha', rfl⟩, hsame⟩ := h
    have hcells := contains_of_mem_travels hin (List.mem_of_getElem? ha)
    have hcells' := contains_of_mem_travels hin (List.mem_of_getElem? ha')
    exact ⟨i, j, a, a', hij, ha, ha', hsame.imp (Dims.node_inj hcells.1 hcells'.1)
      (Dims.node_inj hcells.2 hcells'.2)⟩

/-- Agents on the grid have a defect just if two of them share a cell. -/
theorem shared_iff_firstDefect? (hin : ∀ f ∈ fs, f.Inside d) :
    Shared fs ↔ ∃ e, firstDefect? d.size [] (numbered d fs) = some e := by
  rw [shared_iff_clashes hin]
  constructor
  · intro h
    obtain ⟨j, hj⟩ := h
    cases hdefect : firstDefect? d.size [] (numbered d fs) with
    | none => exact absurd hj (((firstDefect?_eq_none (Admissible.nil _)).mp hdefect).not_clashes j)
    | some e => exact ⟨e, rfl⟩
  · intro h
    obtain ⟨e, he⟩ := h
    obtain ⟨j, hj⟩ := (firstDefect?_eq_some_iff (inside_of_mem_numbered hin)).mp he
    exact ⟨j, hj.clashes⟩

theorem Holds.onWall_iff (h : b.Holds d fs) :
    (b.agents.any fun (initial, goal) => b.walls.contains initial || b.walls.contains goal) = true ↔
      OnWall fs := by
  simp [OnWall, h.agents, h.walls, mem_travels]

theorem Holds.nodeAgents_eq (h : b.Holds d fs) : b.nodeAgents = numbered d fs := by
  rw [nodeAgents, h.agents, h.dims]
  rfl

theorem Holds.describes [Memory] (h : b.Holds d fs) (hfits : Fits d.size) {p : Problem}
    (hgraph : p.graph = b.graph) (hagents : p.agents = numbered d fs) :
    Describes d fs ⟨d, b.walls, p⟩ where
  dims := rfl
  size := by rw [hgraph, size_graph, h.dims, Dims.size]
  cells v hv := ⟨d.cell v, Dims.contains_cell.mpr hv, (d.node_cell v).symm⟩
  edges c c' hc hc' := by
    show p.graph.hasEdge (d.node c) (d.node c') = true ↔ _
    rw [hgraph, h.hasEdge_graph hfits hc hc']
  agents := hagents
  walls := h.walls

/-- A builder that has taken all features makes of them what they describe. -/
theorem Holds.outcome [Memory] (h : b.Holds d fs) (hfits : Fits d.size)
    (hin : ∀ f ∈ fs, f.Inside d) : Outcome d fs b.build := by
  have hnot := not_outside.mpr hin
  have hsize := size_graph b
  rw [h.dims] at hsize
  rw [build, if_neg (not_not_intro h.reasons), h.dims, hfits.builder_lack?]
  dsimp only
  rw [if_neg (not_not_intro hfits), h.nodeAgents_eq]
  split
  next hwall => exact .onWall hnot (h.onWall_iff.mp hwall)
  next hwall =>
    rw [h.onWall_iff] at hwall
    split
    next e he =>
      have hdefect := Problem.ofAgents_eq_error.mp he
      rw [hsize] at hdefect
      refine .shared hnot hwall ((shared_iff_firstDefect? hin).mpr ⟨e, hdefect⟩) fun g hg => ?_
      rw [Problem.ofAgents_eq_error, hg]
      exact hdefect
    next p hp =>
      obtain ⟨hgraph, hagents⟩ := Problem.ofAgents_eq_ok.mp hp
      refine .built hnot hwall ?_ (h.describes hfits hgraph hagents)
      rw [shared_iff_firstDefect? hin]
      intro hex
      obtain ⟨e, he⟩ := hex
      rw [← hsize, ← Problem.ofAgents_eq_error, hp] at he
      cases he

/-- Some feature is the first one outside the grid. -/
theorem exists_first_outside (h : Outside d fs) : ∃ taken f rest, fs = taken ++ f :: rest ∧
    (∀ e ∈ taken, e.Inside d) ∧ ¬f.Inside d := by
  cases hfind : fs.find? fun f => decide ¬f.Inside d with
  | none =>
    have hin : ∀ f ∈ fs, f.Inside d := by simpa using hfind
    exact absurd h (not_outside.mpr hin)
  | some f =>
    obtain ⟨hout, taken, rest, heq, hin⟩ := List.find?_eq_some_iff_append.mp hfind
    exact ⟨taken, f, rest, heq, by simpa using hin, of_decide_eq_true hout⟩

theorem outcome_of_features [Memory] (hfits : Fits d.size) (fs : List Feature) :
    Outcome d fs ((empty d).addAll fs).build := by
  by_cases hout : Outside d fs
  · obtain ⟨taken, f, rest, rfl, hin, hf⟩ := exists_first_outside hout
    have hinvalid := ((holds_empty d).addAll_outside hin hf rest).2
    have hbuild : ((empty d).addAll (taken ++ f :: rest)).build =
        .error (.invalid [.featureOutOfBounds]) := by
      rw [build, if_pos (by simp [hinvalid]), hinvalid]
    rw [hbuild]
    exact .outside hout
  · have hin := not_outside.mp hout
    exact ((holds_empty d).addAll hin).outcome hfits hin

theorem Describes.hasEdge_iff {g : Grid} (h : Describes d fs g) {u v : Nat} :
    g.problem.graph.hasEdge u v = true ↔ ∃ c c', d.Contains c ∧ d.Contains c' ∧
      u = c.x + c.y * d.width ∧ v = c'.x + c'.y * d.width ∧ c.Adjacent c' ∧ Open fs c c' := by
  constructor
  · intro hedge
    have hlt := Graph.lt_of_hasEdge hedge
    rw [h.size] at hlt
    obtain ⟨c, hc, rfl⟩ := h.cells u hlt.1
    obtain ⟨c', hc', rfl⟩ := h.cells v hlt.2
    exact ⟨c, c', hc, hc', rfl, rfl, (h.edges c c' hc hc').mp hedge⟩
  · intro hex
    obtain ⟨c, c', hc, hc', rfl, rfl, hedge⟩ := hex
    exact (h.edges c c' hc hc').mpr hedge

/-- The same grid, or the same reason against one. -/
inductive Agree : Except BuildError Grid → Except BuildError Grid → Prop
  | error (e : BuildError) : Agree (.error e) (.error e)
  | ok {g g' : Grid} : g.dims = g'.dims → g.problem = g'.problem →
      (∀ c, c ∈ g.walls ↔ c ∈ g'.walls) → Agree (.ok g) (.ok g')

theorem Describes.agree {g g' : Grid} (h : Describes d fs g) (h' : Describes d fs g') :
    Agree (.ok g) (.ok g') := by
  have hgraph : g.problem.graph = g'.problem.graph :=
    Graph.ext_hasEdge (h.size.trans h'.size.symm) fun u v => h.hasEdge_iff.trans h'.hasEdge_iff.symm
  have hproblem : g.problem = g'.problem :=
    Problem.mk.injEq .. ▸ ⟨hgraph, h.agents.trans h'.agents.symm⟩
  exact .ok (h.dims.trans h'.dims.symm) hproblem fun c => (h.walls c).trans (h'.walls c).symm

/-- Only one thing can come of the features. -/
theorem Outcome.agree {r r' : Except BuildError Grid} (h : Outcome d fs r) (h' : Outcome d fs r') :
    Agree r r' := by
  cases h with
  | outside hout =>
    cases h' with
    | outside => exact .error _
    | onWall hin => exact absurd hout hin
    | shared hin => exact absurd hout hin
    | built hin => exact absurd hout hin
  | onWall hin hwall =>
    cases h' with
    | outside hout => exact absurd hout hin
    | onWall => exact .error _
    | shared _ hfree => exact absurd hwall hfree
    | built _ hfree => exact absurd hwall hfree
  | shared hin hfree hshared he =>
    cases h' with
    | outside hout => exact absurd hout hin
    | onWall _ hwall => exact absurd hwall hfree
    | shared _ _ _ he' =>
      have hsame := (he (.empty (d.width * d.height)) rfl).symm.trans (he' _ rfl)
      cases hsame
      exact .error _
    | built _ _ hapart => exact absurd hshared hapart
  | built hin hfree hapart hg =>
    cases h' with
    | outside hout => exact absurd hout hin
    | onWall _ hwall => exact absurd hwall hfree
    | shared _ _ hshared => exact absurd hshared hapart
    | built _ _ _ hg' => exact hg.agree hg'

/-- Of the order of the features only that of the agents counts. -/
theorem Outcome.of_perm {r : Except BuildError Grid} (h : Outcome d gs r) (hperm : gs.Perm fs)
    (htravels : travels gs = travels fs) : Outcome d fs r := by
  have hout : Outside d gs ↔ Outside d fs := by simp only [Outside, hperm.mem_iff]
  have hwall : OnWall gs ↔ OnWall fs := by simp only [OnWall, hperm.mem_iff]
  have hshared : Shared gs ↔ Shared fs := by simp only [Shared, htravels]
  have hnumbered : numbered d gs = numbered d fs := by simp only [numbered, htravels]
  have hopen (c c' : Cell) : Open gs c c' ↔ Open fs c c' := by
    simp only [open_iff, hperm.mem_iff]
  cases h with
  | outside h => exact .outside (hout.mp h)
  | onWall hin h => exact .onWall (mt hout.mpr hin) (hwall.mp h)
  | shared hin hfree h he =>
    exact .shared (mt hout.mpr hin) (mt hwall.mpr hfree) (hshared.mp h) (hnumbered ▸ he)
  | built hin hfree hapart hg =>
    refine .built (mt hout.mpr hin) (mt hwall.mpr hfree) (mt hshared.mpr hapart) ?_
    refine ⟨hg.dims, hg.size, hg.cells, ?_, hnumbered ▸ hg.agents, ?_⟩
    · intro c c' hc hc'
      rw [hg.edges c c' hc hc', hopen]
    · intro c
      rw [hg.walls, hperm.mem_iff]

/-- The last cell of a row is not next to the first cell of the next one, unless there is only one
column. -/
theorem Describes.rows_apart {g : Grid} (h : Describes d fs g) (hwidth : 2 ≤ d.width) {y : Nat}
    (hy : y + 1 < d.height) :
    g.problem.graph.hasEdge (d.width - 1 + y * d.width) (0 + (y + 1) * d.width) = false := by
  have hlast : d.Contains ⟨d.width - 1, y⟩ :=
    ⟨Nat.sub_lt d.width_pos Nat.one_pos, Nat.lt_of_succ_lt hy⟩
  have hfirst : d.Contains ⟨0, y + 1⟩ := ⟨d.width_pos, hy⟩
  rw [← Bool.not_eq_true, h.edges _ _ hlast hfirst]
  intro hjoined
  have hadjacent := hjoined.1
  simp only [Cell.Adjacent, Cell.Ahead] at hadjacent
  omega

/-- The grid that is described is built, and nothing else: calls count up to the first that leaves
the grid, and their order only as far as the agents are numbered by it. Its edges are those of the
map that is filled cell by cell, and where there are two columns no row leads on into the next. -/
theorem build_exact [Memory] (hfits : Fits d.size) (fs : List Feature) :
    Outcome d fs ((empty d).addAll fs).build ∧
    (∀ taken f rest, fs = taken ++ f :: rest → (∀ e ∈ taken, e.Inside d) → ¬f.Inside d →
      (empty d).addAll fs = (empty d).addAll (taken ++ [f])) ∧
    ((∀ f ∈ fs, f.Inside d) → Graph.ofEdgeMap d.size ((empty d).addAll fs).edgeMap =
      .ok (.ok ((empty d).addAll fs).graph)) ∧
    (∀ g, ((empty d).addAll fs).build = .ok g → 2 ≤ d.width → ∀ y, y + 1 < d.height →
      g.problem.graph.hasEdge (d.width - 1 + y * d.width) (0 + (y + 1) * d.width) = false) ∧
    ∀ gs, gs.Perm fs → travels gs = travels fs →
      Agree ((empty d).addAll gs).build ((empty d).addAll fs).build := by
  have houtcome := outcome_of_features hfits fs
  refine ⟨houtcome, ?_, ?_, ?_, ?_⟩
  · intro taken f rest heq hin hout
    rw [heq]
    exact ((holds_empty d).addAll_outside hin hout rest).1
  · intro hin
    exact ((holds_empty d).addAll hin).ofEdgeMap_edgeMap hfits
  · intro g hg hwidth y hy
    rw [hg] at houtcome
    cases houtcome with
    | built _ _ _ hdescribes => exact hdescribes.rows_apart hwidth hy
  · intro gs hperm htravels
    exact ((outcome_of_features hfits gs).of_perm hperm htravels).agree houtcome

/-- Three columns and two rows, with a wall in the middle of the first row and a cut in the second:
the agent is told of first, and has to go around both. -/
def detour : List Feature := [.agent ⟨0, 0⟩ ⟨2, 0⟩, .wall ⟨1, 0⟩, .cut ⟨1, 1⟩ ⟨0, 1⟩]

section

attribute [local instance] Memory.ample

theorem build_exact_detour : Fits (Dims.mk 3 2 (by decide) (by decide)).size ∧
    (∃ g, ((empty ⟨3, 2, by decide, by decide⟩).addAll detour).build = .ok g ∧
      g.problem.graph.edges = [(0, 3), (2, 5), (4, 5)]) ∧
    Outcome ⟨3, 2, by decide, by decide⟩ detour
      ((empty ⟨3, 2, by decide, by decide⟩).addAll detour).build :=
  ⟨by decide, ⟨_, rfl, by decide⟩, (build_exact (by decide) detour).1⟩

/-- In a grid of one column the last cell of a row is the first one too, and it is joined to the
next row. -/
theorem rows_joined_column : ∃ (d : Dims) (g : Grid), Fits d.size ∧
    ((empty d).addAll []).build = .ok g ∧ 0 + 1 < d.height ∧
    g.problem.graph.hasEdge (d.width - 1 + 0 * d.width) (0 + (0 + 1) * d.width) = true :=
  ⟨⟨1, 2, by decide, by decide⟩, _, by decide, rfl, by decide, by decide⟩

end

end GridBuilder

end AgentPaths
