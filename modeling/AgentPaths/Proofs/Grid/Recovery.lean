import AgentPaths.Proofs.Grid.Random
import AgentPaths.Proofs.Problem.RoundTrip

/-!
A square grid is recovered from its problem whenever the edges allow it, and nothing is lost on the
way but the reason why a cell has no edges: a free cell that has been cut off from all others comes
back as a wall.
-/
namespace AgentPaths

namespace Step

variable {d : Dims} {c c' : Cell}

/-- The step back from 0 leads to the largest word, which is no coordinate of a grid. -/
theorem pred_add_one {n m : Nat} (hn : n < m) (hm : m < wordBound) (h : pred n < m) :
    pred n + 1 = n := by
  cases n with
  | zero =>
    have hzero : pred 0 = wordBound - 1 := by decide
    omega
  | succ n => rw [pred_succ (by omega)]

/-- A step that stays on the grid leads to an adjacent cell. -/
theorem adjacent_of_move [Memory] (hfits : Fits d.size) (hc : d.Contains c) {s : Step}
    (hmove : d.Contains (s.move c)) : c.Adjacent (s.move c) := by
  have hword := Dims.lt_wordBound hfits
  cases s with
  | up =>
    have hnext : up.move c = ⟨c.x, pred c.y⟩ := rfl
    rw [hnext] at hmove ⊢
    exact Or.inr (Or.inr ⟨rfl, pred_add_one hc.2 hword.2 hmove.2⟩)
  | down =>
    have hnext : down.move c = ⟨c.x, c.y + 1⟩ := by rw [move, succ_of_lt hc.2 hword.2]
    rw [hnext]
    exact Or.inl (Or.inr ⟨rfl, rfl⟩)
  | left =>
    have hnext : left.move c = ⟨pred c.x, c.y⟩ := rfl
    rw [hnext] at hmove ⊢
    exact Or.inr (Or.inl ⟨rfl, pred_add_one hc.1 hword.1 hmove.1⟩)
  | right =>
    have hnext : right.move c = ⟨c.x + 1, c.y⟩ := by rw [move, succ_of_lt hc.1 hword.1]
    rw [hnext]
    exact Or.inl (Or.inl ⟨rfl, rfl⟩)

theorem between?_isSome_iff_adjacent [Memory] (hfits : Fits d.size) (hc : d.Contains c)
    (hc' : d.Contains c') : (between? c c').isSome = true ↔ c.Adjacent c' := by
  constructor
  · intro h
    obtain ⟨s, rfl⟩ := between?_isSome.mp h
    exact adjacent_of_move hfits hc hc'
  · rintro (h | h)
    · exact (between?_of_ahead hfits hc hc' h).1
    · exact (between?_of_ahead hfits hc' hc h).2

end Step

namespace Grid

variable {p : Problem} {g : Grid} {d : Dims} {s : Nat}

/-- The nodes, laid out row by row, fill a square of side `s`, and every edge that is not a loop
joins cells next to each other. -/
structure OnSquare (g : Graph) (s : Nat) : Prop where
  pos : 0 < s
  size : g.size = s * s
  adjacent : ∀ u v, g.hasEdge u v = true → u ≠ v → Cell.Adjacent ⟨u % s, u / s⟩ ⟨v % s, v / s⟩

/-- The grid of side `s` with the problem as it was; its walls are the nodes that have no edge, not
even a loop. -/
structure Recovered (p : Problem) (s : Nat) (g : Grid) : Prop where
  width : g.dims.width = s
  height : g.dims.height = s
  problem : g.problem = p
  walls : ∀ c, c ∈ g.walls ↔
    ∃ v < p.graph.size, c = ⟨v % s, v / s⟩ ∧ ∀ u, p.graph.hasEdge v u = false

/-- The edges that the recovery looks at are all that there are, seen from one of their ends. -/
theorem all_joinsNeighbours [Memory] (hfits : Fits d.size) {g : Graph} (hsize : g.size = d.size) :
    g.edges.all (joinsNeighbours d) = true ↔
      ∀ u v, g.hasEdge u v = true → u ≠ v → (d.cell u).Adjacent (d.cell v) := by
  have hjoins {u v : Nat} (hedge : g.hasEdge u v = true) :
      joinsNeighbours d (u, v) = true ↔ u = v ∨ (d.cell u).Adjacent (d.cell v) := by
    have hlt := Graph.lt_of_hasEdge hedge
    rw [hsize] at hlt
    rw [joinsNeighbours, Bool.or_eq_true, beq_iff_eq, Step.between?_isSome_iff_adjacent hfits
      (Dims.contains_cell.mpr hlt.1) (Dims.contains_cell.mpr hlt.2)]
  rw [List.all_eq_true]
  constructor
  · intro hall u v hedge hne
    rcases Nat.le_total u v with huv | hvu
    · have := (hjoins hedge).mp (hall (u, v) (Graph.mem_edges.mpr ⟨huv, hedge⟩))
      exact this.resolve_left hne
    · have hback : g.hasEdge v u = true := g.hasEdge_comm u v ▸ hedge
      have := (hjoins hback).mp (hall (v, u) (Graph.mem_edges.mpr ⟨hvu, hback⟩))
      exact (this.resolve_left hne.symm).symm
  · rintro hall ⟨u, v⟩ he
    have hedge := (Graph.mem_edges.mp he).2
    rw [hjoins hedge, or_iff_not_imp_left]
    exact hall u v hedge

theorem ofProblem?_of_onSquare [Memory] (hfits : Fits p.graph.size) (h : OnSquare p.graph s) :
    ∃ g, ofProblem? p = some g ∧ Recovered p s g := by
  have hside := side?_eq_some.mpr h.size.symm
  have hsize : p.graph.size = (Dims.square s h.pos).size := h.size
  have hedges := (all_joinsNeighbours (hsize ▸ hfits) hsize).mpr h.adjacent
  unfold ofProblem?
  rw [hside]
  dsimp only
  rw [dif_pos h.pos, if_pos hedges]
  refine ⟨_, rfl, rfl, rfl, rfl, fun c => ?_⟩
  have hempty (v : Nat) : (p.graph.neighbours v).isEmpty = true ↔
      ∀ u, p.graph.hasEdge v u = false := by
    simp [List.isEmpty_iff, List.eq_nil_iff_forall_not_mem]
  simp only [List.mem_map, List.mem_filter, List.mem_range, hempty, and_assoc]
  exact exists_congr fun v => and_congr_right fun _ => and_comm.trans (and_congr_left' eq_comm)

/-- What a recovered grid is made of. -/
theorem parts_of_ofProblem? (hg : ofProblem? p = some g) : ∃ s hpos, p.graph.size = s * s ∧
    p.graph.edges.all (joinsNeighbours (.square s hpos)) = true ∧ g.dims = .square s hpos ∧
    g.problem = p := by
  unfold ofProblem? at hg
  split at hg
  next => cases hg
  next s hside =>
    split at hg
    next hpos =>
      dsimp only at hg
      split at hg
      next hedges =>
        cases hg
        exact ⟨s, hpos, (side?_eq_some.mp hside).symm, hedges, rfl, rfl⟩
      next => cases hg
    next => cases hg

theorem onSquare_of_ofProblem? [Memory] (hfits : Fits p.graph.size) (hg : ofProblem? p = some g) :
    ∃ s, OnSquare p.graph s := by
  obtain ⟨s, hpos, hsize, hedges, -, -⟩ := parts_of_ofProblem? hg
  have hsquare : p.graph.size = (Dims.square s hpos).size := hsize
  exact ⟨s, hpos, hsize, (all_joinsNeighbours (hsquare ▸ hfits) hsquare).mp hedges⟩

end Grid

namespace GridBuilder

variable {b : GridBuilder} {d : Dims} {fs : List Feature} {g : Grid} {c : Cell}

/-- The builders that there are: those that are begun empty or at random, and what further features
make of them. -/
inductive Made [Memory] : GridBuilder → Prop
  | empty (d : Dims) : Made (.empty d)
  | random {σ : Type} (shuffle : List Nat → σ → List Nat × σ) (side : Nat) (hside : 0 < side)
      (p q : Nat) (state : σ) {b : GridBuilder} :
      GridBuilder.random shuffle side hside p q state = .ok b → Made b
  | add {b : GridBuilder} (f : Feature) : Made b → Made (b.add f)

theorem Made.addAll [Memory] (h : Made b) (fs : List Feature) : Made (b.addAll fs) := by
  induction fs generalizing b with
  | nil => exact h
  | cons f fs ih => exact ih (h.add f)

/-- All features of a valid builder are on its grid. -/
theorem inside_of_valid (h : ((empty d).addAll fs).reasons = []) : ∀ f ∈ fs, f.Inside d := by
  rw [← not_outside]
  intro hout
  obtain ⟨taken, f, rest, rfl, hin, hf⟩ := exists_first_outside hout
  rw [((holds_empty d).addAll_outside hin hf rest).2] at h
  cases h

/-- A random builder that is valid has been told of walls and agents. -/
theorem exists_features_of_random [Memory] {σ : Type} {shuffle : List Nat → σ → List Nat × σ}
    {side p q : Nat} {hside : 0 < side} {state : σ}
    (h : random shuffle side hside p q state = .ok b) (hvalid : b.reasons = []) :
    ∃ fs, b = (empty (.square side hside)).addAll fs := by
  unfold random at h
  dsimp only at h
  split at h
  next =>
    cases h
    cases hvalid
  next =>
    split at h
    next => cases h
    next =>
      rw [foldl_addWall, foldl_addAgent, ← addAll_append, Except.ok.injEq] at h
      exact ⟨_, h.symm⟩

/-- As long as a builder is valid, it holds features that are on its grid. -/
theorem Made.exists_holds [Memory] (h : Made b) (hvalid : b.reasons = []) :
    ∃ fs, b.Holds b.dims fs ∧ ∀ f ∈ fs, f.Inside b.dims := by
  induction h with
  | empty d => exact ⟨[], holds_empty d, by simp⟩
  | random shuffle side hside p q state hrandom =>
    obtain ⟨fs, rfl⟩ := exists_features_of_random hrandom hvalid
    have hin := inside_of_valid hvalid
    rw [dims_addAll]
    exact ⟨fs, (holds_empty _).addAll hin, hin⟩
  | @add b f hmade ih =>
    have hbefore : b.reasons = [] := by
      by_contra hne
      have hsame : b.add f = b := addAll_of_invalid hne [f]
      exact hne (hsame ▸ hvalid)
    obtain ⟨fs, hholds, hin⟩ := ih hbefore
    have hf : f.Inside b.dims := by
      by_contra hout
      rw [hholds.add_outside hout] at hvalid
      cases hvalid
    rw [dims_add]
    refine ⟨fs ++ [f], hholds.add hf, List.forall_mem_append.mpr ⟨hin, ?_⟩⟩
    exact List.forall_mem_singleton.mpr hf

/-- What a built grid is made of. -/
theorem parts_of_build [Memory] (hb : b.build = .ok g) : b.reasons = [] ∧ Fits b.dims.size ∧
    g.dims = b.dims ∧ g.walls = b.walls ∧ g.problem.graph = b.graph := by
  unfold build at hb
  split at hb
  next => cases hb
  next hvalid =>
    split at hb
    next => cases hb
    next =>
      split at hb
      next => cases hb
      next =>
        split at hb
        next => cases hb
        next hfits =>
          split at hb
          next => cases hb
          next p hp =>
            cases hb
            obtain ⟨hgraph, -⟩ := Problem.ofAgents_eq_ok.mp hp
            exact ⟨not_not.mp hvalid, not_not.mp hfits, rfl, rfl, hgraph⟩

/-- A built grid is the one that the features of its builder describe. -/
theorem Made.describes [Memory] (h : Made b) (hb : b.build = .ok g) : ∃ fs, b.Holds b.dims fs ∧
    (∀ f ∈ fs, f.Inside b.dims) ∧ Fits b.dims.size ∧ Describes b.dims fs g := by
  obtain ⟨hvalid, hfits, -⟩ := parts_of_build hb
  obtain ⟨fs, hholds, hin⟩ := h.exists_holds hvalid
  have houtcome := hholds.outcome hfits hin
  rw [hb] at houtcome
  cases houtcome with
  | built _ _ _ hdescribes => exact ⟨fs, hholds, hin, hfits, hdescribes⟩

/-- A free cell that is left without an edge: every adjacent cell on the grid is a wall, or it has
been cut off, in one of the two orders. -/
def Enclosed (b : GridBuilder) (c : Cell) : Prop :=
  b.dims.Contains c ∧ c ∉ b.walls ∧ ∀ c', b.dims.Contains c' → c.Adjacent c' →
    c' ∈ b.walls ∨ (c, c') ∈ b.cuts ∨ (c', c) ∈ b.cuts

/-- What keeps adjacent cells apart is in the builder. -/
theorem Holds.not_open_iff [Memory] (h : b.Holds d fs) (hfits : Fits d.size) {c' : Cell}
    (hc : d.Contains c) (hc' : d.Contains c') (hadjacent : c.Adjacent c') : ¬Open fs c c' ↔
      c ∈ b.walls ∨ c' ∈ b.walls ∨ (c, c') ∈ b.cuts ∨ (c', c) ∈ b.cuts := by
  have hforth := (Step.between?_isSome_iff_adjacent hfits hc hc').mpr hadjacent
  have hback := (Step.between?_isSome_iff_adjacent hfits hc' hc).mpr hadjacent.symm
  rw [open_iff, h.walls, h.walls, h.cuts, h.cuts]
  simp only [hforth, hback, and_true, not_and_or, not_not]

/-- A cell has no edge if something keeps it apart from each adjacent cell. -/
theorem Describes.isolated_iff (h : Describes d fs g) (hc : d.Contains c) :
    (∀ u, g.problem.graph.hasEdge (d.node c) u = false) ↔
      ∀ c', d.Contains c' → c.Adjacent c' → ¬Open fs c c' := by
  constructor
  · intro hnone c' hc' hadjacent hopen
    have hedge := (h.edges c c' hc hc').mpr ⟨hadjacent, hopen⟩
    exact absurd hedge (Bool.eq_false_iff.mp (hnone (d.node c')))
  · intro hapart u
    rw [Bool.eq_false_iff]
    intro hedge
    obtain ⟨c', hc', rfl⟩ := h.cells u (h.size ▸ (Graph.lt_of_hasEdge hedge).2)
    have hjoined := (h.edges c c' hc hc').mp hedge
    exact hapart c' hc' hjoined.1 hjoined.2

/-- The cells without an edge are the walls and the enclosed cells. -/
theorem Holds.isolated_iff [Memory] (h : b.Holds b.dims fs) (hin : ∀ f ∈ fs, f.Inside b.dims)
    (hfits : Fits b.dims.size) (hg : Describes b.dims fs g) :
    (b.dims.Contains c ∧ ∀ u, g.problem.graph.hasEdge (b.dims.node c) u = false) ↔
      c ∈ b.walls ∨ b.Enclosed c := by
  constructor
  · rintro ⟨hc, hnone⟩
    rw [or_iff_not_imp_left]
    intro hfree
    refine ⟨hc, hfree, fun c' hc' hadjacent => ?_⟩
    have hapart := (hg.isolated_iff hc).mp hnone c' hc' hadjacent
    exact ((h.not_open_iff hfits hc hc' hadjacent).mp hapart).resolve_left hfree
  · intro hc
    have hcell : b.dims.Contains c := by
      rcases hc with hwall | hc
      · exact hin _ ((h.walls c).mp hwall) c (by simp [Feature.cells])
      · exact hc.1
    refine ⟨hcell, (hg.isolated_iff hcell).mpr fun c' hc' hadjacent => ?_⟩
    rw [h.not_open_iff hfits hcell hc' hadjacent]
    exact hc.imp_right fun hc => hc.2.2 c' hc' hadjacent

/-- The edges of a square grid lie on the square. -/
theorem Describes.onSquare (h : Describes d fs g) (hsquare : d.width = d.height) :
    Grid.OnSquare g.problem.graph d.width where
  pos := d.width_pos
  size := by rw [h.size, ← hsquare]
  adjacent u v hedge _ := by
    obtain ⟨c, c', hc, hc', rfl, rfl, hadjacent, _⟩ := h.hasEdge_iff.mp hedge
    have hcell : d.cell (d.node c) = c := Dims.cell_node hc.1
    have hcell' : d.cell (d.node c') = c' := Dims.cell_node hc'.1
    show (d.cell (d.node c)).Adjacent (d.cell (d.node c'))
    rwa [hcell, hcell']

/-- The grid that has been built comes back from its problem, and cells that have been enclosed come
back as walls. -/
theorem Made.recovered [Memory] (h : Made b) (hsquare : b.dims.width = b.dims.height)
    (hb : b.build = .ok g) : ∃ r, Grid.ofProblem? g.problem = some r ∧ r.dims = b.dims ∧
      r.problem = g.problem ∧ ∀ c, c ∈ r.walls ↔ c ∈ b.walls ∨ b.Enclosed c := by
  obtain ⟨fs, hholds, hin, hfits, hdescribes⟩ := h.describes hb
  have hsize : g.problem.graph.size = b.dims.size := hdescribes.size
  obtain ⟨r, hr, hrecovered⟩ :=
    Grid.ofProblem?_of_onSquare (hsize ▸ hfits) (hdescribes.onSquare hsquare)
  have hdims : r.dims = b.dims :=
    Dims.mk.injEq .. ▸ ⟨hrecovered.width, hrecovered.height.trans hsquare⟩
  refine ⟨r, hr, hdims, hrecovered.problem, fun c => ?_⟩
  rw [hrecovered.walls, ← hholds.isolated_iff hin hfits hdescribes, hsize]
  constructor
  · rintro ⟨v, hv, rfl, hnone⟩
    have hnode : b.dims.node (b.dims.cell v) = v := b.dims.node_cell v
    exact ⟨Dims.contains_cell.mpr hv, hnode.symm ▸ hnone⟩
  · rintro ⟨hc, hnone⟩
    exact ⟨_, Dims.node_lt hc, (Dims.cell_node hc.1).symm, hnone⟩

end GridBuilder

namespace Grid

/-- A square grid is recovered from a problem exactly when the nodes and the edges lie on a square.
A square grid that has been built lies on one, and so does what is read of it from its text. -/
theorem recovery_exact [Memory] :
    (∀ p : Problem, Fits p.graph.size →
      ((∃ g, ofProblem? p = some g) ↔ ∃ s, OnSquare p.graph s) ∧
      ∀ g, ofProblem? p = some g → ∃ s, OnSquare p.graph s ∧ Recovered p s g) ∧
    ∀ (b : GridBuilder) (g : Grid), b.Made → b.dims.width = b.dims.height → b.build = .ok g →
      ∃ r, ofProblem? g.problem = some r ∧ r.dims = b.dims ∧ r.problem = g.problem ∧
        (∀ c, c ∈ r.walls ↔ c ∈ b.walls ∨ b.Enclosed c) ∧
        ∃ q, Problem.read (.ofUTF8 g.problem.text) = .ok q ∧ ofProblem? q = some r := by
  constructor
  · intro p hfits
    have hrecovered {g : Grid} (hg : ofProblem? p = some g) :
        ∃ s, OnSquare p.graph s ∧ Recovered p s g := by
      obtain ⟨s, hs⟩ := onSquare_of_ofProblem? hfits hg
      obtain ⟨g', hg', hrecovered⟩ := ofProblem?_of_onSquare hfits hs
      cases hg.symm.trans hg'
      exact ⟨s, hs, hrecovered⟩
    refine ⟨⟨?_, ?_⟩, fun g hg => hrecovered hg⟩
    · rintro ⟨g, hg⟩
      obtain ⟨s, hs, -⟩ := hrecovered hg
      exact ⟨s, hs⟩
    · rintro ⟨s, hs⟩
      obtain ⟨g, hg, -⟩ := ofProblem?_of_onSquare hfits hs
      exact ⟨g, hg⟩
  · intro b g hmade hsquare hb
    obtain ⟨r, hr, hdims, hproblem, hwalls⟩ := hmade.recovered hsquare hb
    obtain ⟨fs, -, -, hfits, hdescribes⟩ := hmade.describes hb
    have hsize : g.problem.graph.size = b.dims.size := hdescribes.size
    exact ⟨r, hr, hdims, hproblem, hwalls, g.problem, Problem.read_text _ (hsize ▸ hfits), hr⟩

/-- Four cells, of which the first is left between a wall and a cut. -/
def nook : GridBuilder := (GridBuilder.empty (.square 2 (by decide))).addAll
  [.wall ⟨1, 0⟩, .agent ⟨0, 1⟩ ⟨1, 1⟩, .cut ⟨0, 1⟩ ⟨0, 0⟩]

theorem enclosed_nook : nook.Enclosed ⟨0, 0⟩ := by
  refine ⟨by decide, by decide, ?_⟩
  rintro ⟨x, y⟩ - hadjacent
  have hnext : x = 1 ∧ y = 0 ∨ x = 0 ∧ y = 1 := by
    simp only [Cell.Adjacent, Cell.Ahead] at hadjacent
    omega
  rcases hnext with ⟨rfl, rfl⟩ | ⟨rfl, rfl⟩ <;> decide

section

attribute [local instance] Memory.ample

/-- An edge between two rows, and a loop. -/
theorem onSquare_looped : OnSquare Problem.looped.graph 2 :=
  have hfits : Fits (Dims.square 2 (by decide)).size := by decide
  ⟨by decide, rfl, (all_joinsNeighbours hfits rfl).mp (by decide)⟩

theorem recovery_exact_nook :
    (Fits Problem.looped.graph.size ∧ ∃ g, ofProblem? Problem.looped = some g ∧
      ∃ s, OnSquare Problem.looped.graph s ∧ Recovered Problem.looped s g) ∧
    nook.Made ∧ nook.dims.width = nook.dims.height ∧ ∃ g, nook.build = .ok g ∧
      ∃ r, ofProblem? g.problem = some r ∧ r.problem = g.problem ∧ ⟨0, 0⟩ ∈ r.walls ∧
        ∃ q, Problem.read (.ofUTF8 g.problem.text) = .ok q ∧ ofProblem? q = some r := by
  have hfits : Fits Problem.looped.graph.size := by decide
  have hmade : nook.Made := (GridBuilder.Made.empty _).addAll _
  have hbuild : ∃ g, nook.build = .ok g := ⟨_, rfl⟩
  obtain ⟨hproblems, hbuilders⟩ := recovery_exact
  constructor
  · obtain ⟨g, hg⟩ := (hproblems _ hfits).1.mpr ⟨2, onSquare_looped⟩
    exact ⟨hfits, g, hg, (hproblems _ hfits).2 g hg⟩
  · obtain ⟨g, hg⟩ := hbuild
    obtain ⟨r, hr, -, hproblem, hwalls, hread⟩ := hbuilders nook g hmade rfl hg
    exact ⟨hmade, rfl, g, hg, r, hr, hproblem, (hwalls _).mpr (Or.inr enclosed_nook), hread⟩

end

end Grid

end AgentPaths
