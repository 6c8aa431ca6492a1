import AgentPaths.Proofs.Grid.Painting

/-!
What a drawing shows. At any time of a schedule a cell shows the last agent on its node, and an
agent that is not on the grid is not seen. Starts and goals are drawn side by side, so that no agent
covers another one there.
-/
namespace AgentPaths.Grid

variable {α : Type} {g : Grid} {p : α → Bool} {l : List α} {first : Char}
  {text : Nat → List Char} {d : Dims} {agents : List Agent} {i v : Nat}

/-- The grids that there are: those that are built, and those that are recovered from a problem. -/
inductive Made [Memory] : Grid → Prop
  | built {b : GridBuilder} {g : Grid} : b.build = .ok g → Made g
  | recovered {p : Problem} {g : Grid} : ofProblem? p = some g → Made g

/-- The text shows where the agents of a schedule are at a time, one character for each cell. -/
structure Standing (g : Grid) (s : Schedule) (t : Nat) (text : List Char)
    (cell : Nat → Nat → Char) : Prop where
  tabled : Tabled text g.dims.width g.dims.height fun x y => [cell x y]
  marks : ∀ x < g.dims.width, ∀ y < g.dims.height,
    Mark 'A' {a | s.position? a t = some (x + y * g.dims.width)} (⟨x, y⟩ ∈ g.walls) (cell x y)

/-- The text shows where the agents start and where they finish, two characters for each cell. No
start is covered by another, and no goal is. -/
structure Travelling (g : Grid) (text : List Char) (start finish : Nat → Nat → Char) : Prop where
  tabled : Tabled text g.dims.width g.dims.height fun x y => [start x y, finish x y]
  starts : ∀ x < g.dims.width, ∀ y < g.dims.height,
    Mark 'A' {a | g.problem.agents[a]?.map Agent.initial = some (x + y * g.dims.width)}
      (⟨x, y⟩ ∈ g.walls) (start x y)
  finishes : ∀ x < g.dims.width, ∀ y < g.dims.height,
    Mark 'a' {a | g.problem.agents[a]?.map Agent.goal = some (x + y * g.dims.width)}
      (⟨x, y⟩ ∈ g.walls) (finish x y)
  ownStart : ∀ a agent, g.problem.agents[a]? = some agent → ∃ x < g.dims.width,
    ∃ y < g.dims.height, agent.initial = x + y * g.dims.width ∧ start x y = letter 'A' a
  ownFinish : ∀ a agent, g.problem.agents[a]? = some agent → ∃ x < g.dims.width,
    ∃ y < g.dims.height, agent.goal = x + y * g.dims.width ∧ finish x y = letter 'a' a

/-- The nodes of a grid are its cells. -/
theorem Made.size [Memory] (h : g.Made) : g.problem.graph.size = g.dims.size := by
  cases h with
  | @built b g h =>
    obtain ⟨-, -, hdims, -, hgraph⟩ := GridBuilder.parts_of_build h
    rw [hgraph, hdims, GridBuilder.size_graph]
  | @recovered p g h =>
    obtain ⟨s, hpos, hsize, -, hdims, hproblem⟩ := parts_of_ofProblem? h
    rw [hproblem, hdims]
    exact hsize

theorem places_key (key : Agent → Nat) (agents : List Agent) (v : Nat) :
    places (fun a => key a == v) agents = {a | agents[a]?.map key = some v} := by
  ext a
  simp [places]

/-- On the node of an agent that shares it with no other, the last agent is this one. -/
theorem last?_of_nodup {key : Agent → Nat} {a : Agent} (hnodup : (agents.map key).Nodup)
    (ha : agents[i]? = some a) : last? (fun b => key b == key a) agents = some i := by
  rw [last?_eq_some]
  refine ⟨⟨a, ha, beq_self_eq_true _⟩, ?_⟩
  rintro j ⟨b, hb, hkey⟩
  have hi : (agents.map key)[i]? = some (key a) := by rw [List.getElem?_map, ha, Option.map_some]
  have hj : (agents.map key)[j]? = some (key a) := by
    rw [List.getElem?_map, hb, Option.map_some, eq_of_beq hkey]
  have hlt := (List.getElem?_eq_some_iff.mp hj).1
  exact ((List.getElem?_inj hlt hnodup).mp (hj.trans hi.symm)).le

/-- Each agent is the last one on one node. -/
theorem filterMap_last?_perm {key : Agent → Nat} {n : Nat} (hnodup : (agents.map key).Nodup)
    (hlt : ∀ a ∈ agents, key a < n) :
    ((List.range n).filterMap fun v => last? (fun a => key a == v) agents).Perm
      (List.range agents.length) := by
  have hone : ∀ v v' i, i ∈ last? (fun a => key a == v) agents →
      i ∈ last? (fun a => key a == v') agents → v = v' := by
    intro v v' i hi hi'
    obtain ⟨⟨a, ha, hv⟩, -⟩ := last?_eq_some.mp hi
    obtain ⟨⟨a', ha', hv'⟩, -⟩ := last?_eq_some.mp hi'
    obtain rfl := Option.some.inj (ha.symm.trans ha')
    exact (eq_of_beq hv).symm.trans (eq_of_beq hv')
  rw [List.perm_ext_iff_of_nodup (List.nodup_range.filterMap hone) List.nodup_range]
  intro i
  rw [List.mem_filterMap, List.mem_range]
  constructor
  · rintro ⟨v, -, hv⟩
    exact lt_of_mem_places (last?_eq_some.mp hv).1
  · intro hi
    have ha := List.getElem?_eq_getElem hi
    exact ⟨_, List.mem_range.mpr (hlt _ (List.getElem_mem hi)), last?_of_nodup hnodup ha⟩

theorem flatMap_range_mul {β : Type} (f : Nat → List β) (w h : Nat) :
    ((List.range h).flatMap fun y => (List.range w).flatMap fun x => f (x + y * w)) =
      (List.range (w * h)).flatMap f := by
  induction h with
  | zero => simp
  | succ h ih =>
    rw [List.range_succ, List.flatMap_append, ih, Nat.mul_succ, List.range_add,
      List.flatMap_append, List.flatMap_map, List.flatMap_singleton]
    simp only [Nat.add_comm, Nat.mul_comm]

/-- Apart from what stands between them, a drawing consists of its cells. -/
theorem filter_draw {q : Char → Bool} (hblank : q ' ' = false) (hfeed : q '\n' = false) :
    (draw d text).filter q = (List.range d.size).flatMap fun v => (text v).filter q := by
  rw [draw, Text.unlines, List.filter_flatMap, List.flatMap_map, Dims.size, ← flatMap_range_mul]
  congr 1
  funext y
  rw [List.filter_append, filter_intercalate hblank, List.flatMap_map, List.filter_singleton,
    hfeed]
  simp [Dims.node]

theorem filter_glyph_eq_nil {q : Char → Bool} (hletter : ∀ a, q (letter first a) = false)
    (hwall : q '#' = false) (hfree : q '.' = false) : [g.glyph first p l v].filter q = [] := by
  have hnone := (mark_glyph g first p l v).of_forall (q := (q · = false)) hletter hwall hfree
  rw [List.filter_singleton, hnone]
  rfl

theorem filter_glyph {q : Char → Bool} (hletter : ∀ a, q (letter first a) = true)
    (hwall : q '#' = false) (hfree : q '.' = false) :
    [g.glyph first p l v].filter q = ((last? p l).map (letter first)).toList := by
  unfold glyph background
  cases last? p l with
  | some a => simp [hletter]
  | none =>
    split
    · simp [hwall]
    · simp [hfree]

/-- On its own node, an agent is drawn where a cell of that number is. -/
theorem exists_own {key : Agent → Nat} {a : Agent} (hnodup : (g.problem.agents.map key).Nodup)
    (hlt : key a < g.dims.size) (ha : g.problem.agents[i]? = some a) : ∃ x < g.dims.width,
      ∃ y < g.dims.height, key a = x + y * g.dims.width ∧
        g.glyph first (fun b => key b == x + y * g.dims.width) g.problem.agents
          (x + y * g.dims.width) = letter first i := by
  have hcell := Dims.contains_cell.mpr hlt
  have hnode : key a = (g.dims.cell (key a)).x + (g.dims.cell (key a)).y * g.dims.width :=
    (g.dims.node_cell _).symm
  refine ⟨_, hcell.1, _, hcell.2, hnode, ?_⟩
  rw [← hnode, glyph, last?_of_nodup hnodup ha]
  rfl

theorem standing_render (g : Grid) (s : Schedule) (t : Nat) :
    ∃ cell, g.Standing s t (g.render s t) cell := by
  refine ⟨fun x y => g.glyph 'A' (fun path => path[t]? == some (x + y * g.dims.width)) s.paths
    (x + y * g.dims.width), ?_, fun x hx y _ => ?_⟩
  · rw [render_eq_draw]
    refine tabled_draw fun v => ?_
    have hcell := visible_glyph g (Or.inl rfl) (fun path => path[t]? == some v) s.paths v
    simp [hcell]
  · rw [← places_paths]
    exact mark_cell hx (mark_glyph g 'A' _ s.paths _)

theorem travelling_layout (hsize : g.problem.graph.size = g.dims.size) :
    ∃ start finish, g.Travelling g.layout start finish := by
  have hinside := g.problem.admissible.inside
  rw [hsize] at hinside
  refine ⟨fun x y => g.glyph 'A' (·.initial == x + y * g.dims.width) g.problem.agents
    (x + y * g.dims.width), fun x y => g.glyph 'a' (·.goal == x + y * g.dims.width)
    g.problem.agents (x + y * g.dims.width), ?_, ?_, ?_, ?_, ?_⟩
  · rw [layout_eq_draw]
    refine tabled_draw fun v => ?_
    have hstart := visible_glyph g (Or.inl rfl) (·.initial == v) g.problem.agents v
    have hfinish := visible_glyph g (Or.inr rfl) (·.goal == v) g.problem.agents v
    simp [hstart, hfinish]
  · intro x hx y _
    rw [← places_key Agent.initial]
    exact mark_cell hx (mark_glyph g 'A' _ _ _)
  · intro x hx y _
    rw [← places_key Agent.goal]
    exact mark_cell hx (mark_glyph g 'a' _ _ _)
  · intro a agent ha
    exact exists_own g.problem.admissible.initials (hinside _ (List.mem_of_getElem? ha)).1 ha
  · intro a agent ha
    exact exists_own g.problem.admissible.goals (hinside _ (List.mem_of_getElem? ha)).2 ha

/-- Each agent has one letter among those of one half of the cells. -/
theorem filter_layout_perm {q : Char → Bool} {key : Agent → Nat} (hblank : q ' ' = false)
    (hfeed : q '\n' = false)
    (hcell : ∀ v, [g.glyph 'A' (·.initial == v) g.problem.agents v,
      g.glyph 'a' (·.goal == v) g.problem.agents v].filter q =
        ((last? (key · == v) g.problem.agents).map (letter first)).toList)
    (hnodup : (g.problem.agents.map key).Nodup)
    (hlt : ∀ a ∈ g.problem.agents, key a < g.dims.size) :
    (g.layout.filter q).Perm ((List.range g.problem.agents.length).map (letter first)) := by
  have hdraw : g.layout.filter q = ((List.range g.dims.size).filterMap fun v =>
      last? (key · == v) g.problem.agents).map (letter first) := by
    rw [List.map_filterMap, List.filterMap_eq_flatMap_toList, layout_eq_draw,
      filter_draw hblank hfeed]
    exact congrArg (List.flatMap · _) (funext hcell)
  rw [hdraw]
  exact (filterMap_last?_perm hnodup hlt).map _

/-- Every drawing shows what it is of: at any time of a schedule the highest agent on each node, but
no agent that is not on the grid; and of the agents themselves every start and every goal, each of
them once. It is what comes of painting the agents in their order. -/
theorem drawing_exact [Memory] (hg : g.Made) :
    (∀ s t, g.render s t =
        (s.paths.zipIdx.foldl (paintPath g.dims t) (g.blank ['#'] ['.'])).print ∧
      (∃ cell, g.Standing s t (g.render s t) cell) ∧
      ∀ a, (∀ v, s.position? a t = some v → g.dims.width * g.dims.height ≤ v) →
        g.render ⟨s.paths.set a []⟩ t = g.render s t) ∧
    g.layout =
      (g.problem.agents.zipIdx.foldl (paintAgent g.dims) (g.blank ['#', '#'] ['.', '.'])).print ∧
    (∃ start finish, g.Travelling g.layout start finish) ∧
    (g.layout.filter Char.isUpper).Perm
      ((List.range g.problem.agents.length).map (letter 'A')) ∧
    (g.layout.filter Char.isLower).Perm
      ((List.range g.problem.agents.length).map (letter 'a')) := by
  have hinside := g.problem.admissible.inside
  rw [hg.size] at hinside
  refine ⟨fun s t => ⟨?_, standing_render g s t, fun a => render_set⟩, ?_,
    travelling_layout hg.size, ?_, ?_⟩
  · rw [paint_paths, ← draw_eq_print, render_eq_draw]
  · rw [paint_agents, ← draw_eq_print, layout_eq_draw]
  · refine filter_layout_perm rfl rfl (fun v => ?_) g.problem.admissible.initials
      fun a ha => (hinside a ha).1
    rw [← List.singleton_append, List.filter_append,
      filter_glyph (fun a => (upper_letter a).1) rfl rfl,
      filter_glyph_eq_nil (fun a => (lower_letter a).2) rfl rfl, List.append_nil]
  · refine filter_layout_perm rfl rfl (fun v => ?_) g.problem.admissible.goals
      fun a ha => (hinside a ha).2
    rw [← List.singleton_append, List.filter_append,
      filter_glyph_eq_nil (fun a => (upper_letter a).2) rfl rfl,
      filter_glyph (fun a => (lower_letter a).1) rfl rfl, List.nil_append]

/-- Three columns and two rows. -/
def oblong : GridBuilder :=
  (GridBuilder.empty ⟨3, 2, Nat.succ_pos 2, Nat.succ_pos 1⟩).addAll GridBuilder.detour

/-- Two agents that stand together at time 1, one beyond the grid and one without a position. -/
def gathering : Schedule := ⟨[[0, 3], [5, 6], [], [4, 3]]⟩

section

attribute [local instance] Memory.ample

theorem drawing_exact_oblong : ∃ g, oblong.build = .ok g ∧ g.Made ∧
    (∃ cell, g.Standing gathering 1 (g.render gathering 1) cell) ∧
    g.render gathering 1 = ". # .\nD . .\n".toList ∧
    (∀ v, gathering.position? 1 1 = some v → g.dims.width * g.dims.height ≤ v) ∧
    g.render ⟨gathering.paths.set 1 []⟩ 1 = g.render gathering 1 ∧
    (∃ start finish, g.Travelling g.layout start finish) ∧
    g.layout = "A. ## .a\n.. .. ..\n".toList ∧
    (g.layout.filter Char.isUpper).Perm
      ((List.range g.problem.agents.length).map (letter 'A')) := by
  have hdrawn : oblong.build.map (fun g => (g.dims.size, g.render gathering 1, g.layout)) =
      .ok (6, ". # .\nD . .\n".toList, "A. ## .a\n.. .. ..\n".toList) := rfl
  cases hbuild : oblong.build with
  | error e =>
    rw [hbuild] at hdrawn
    cases hdrawn
  | ok g =>
    rw [hbuild] at hdrawn
    obtain ⟨hsize, hrender, hlayout⟩ : g.dims.size = 6 ∧ _ ∧ _ := by
      simpa [Except.map] using hdrawn
    have hmade : g.Made := .built hbuild
    have hbeyond : ∀ v, gathering.position? 1 1 = some v → g.dims.width * g.dims.height ≤ v := by
      intro v hv
      obtain rfl : 6 = v := Option.some.inj hv
      exact hsize.le
    obtain ⟨htimes, -, htravels, hupper, -⟩ := drawing_exact hmade
    obtain ⟨-, hstanding, hunseen⟩ := htimes gathering 1
    exact ⟨g, rfl, hmade, hstanding, hrender, hbeyond, hunseen 1 hbeyond, htravels, hlayout, hupper⟩

end

end AgentPaths.Grid
