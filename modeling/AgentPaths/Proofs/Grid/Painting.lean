import AgentPaths.Proofs.Grid.Glyph

/-!
Drawings come of painting. One agent after the other is painted over the empty grid; a change
concerns the cell of one node, so that what is painted last hides what is under it, and an agent
that is not on the grid changes nothing.
-/
namespace AgentPaths.Grid

variable {d : Dims} {g : Grid} {text : Nat → List Char} {s s' : Schedule} {i t : Nat}

/-- The texts of the cells, row by row. -/
abbrev Board := List (List (List Char))

/-- The board with another text in a cell, if it has that cell. -/
def Board.change (b : Board) (c : Cell) (f : List Char → List Char) : Board :=
  b.modify c.y fun row => row.modify c.x f

def Board.print (b : Board) : List Char := Text.unlines (b.map [' '].intercalate)

/-- The board with the given text in the cell of each node. -/
def board (d : Dims) (text : Nat → List Char) : Board :=
  (List.range d.height).map fun y => (List.range d.width).map fun x => text (d.node ⟨x, y⟩)

/-- The board without agents. -/
def blank (g : Grid) (wall free : List Char) : Board :=
  board g.dims fun v => if g.walls.contains (g.dims.cell v) then wall else free

/-- Paints the agent of a path over whatever is where it stands. -/
def paintPath (d : Dims) (time : Nat) (b : Board) : List Nat × Nat → Board
  | (path, a) => match path[time]? with
    | some v => b.change (d.cell v) fun _ => [letter 'A' a]
    | none => b

/-- Paints where an agent starts and where it finishes, each into its half of the cell. -/
def paintAgent (d : Dims) (b : Board) : Agent × Nat → Board
  | (agent, a) => (b.change (d.cell agent.initial) (·.set 0 (letter 'A' a))).change
      (d.cell agent.goal) (·.set 1 (letter 'a' a))

theorem render_eq_draw (g : Grid) (s : Schedule) (t : Nat) : g.render s t =
    draw g.dims fun v => [g.glyph 'A' (fun path => path[t]? == some v) s.paths v] := rfl

theorem layout_eq_draw (g : Grid) : g.layout = draw g.dims fun v =>
    [g.glyph 'A' (·.initial == v) g.problem.agents v,
      g.glyph 'a' (·.goal == v) g.problem.agents v] := rfl

theorem draw_eq_print (d : Dims) (text : Nat → List Char) : draw d text = (board d text).print := by
  rw [draw, Board.print, board, List.map_map]
  rfl

theorem modify_map_range {β : Type} (n i : Nat) (f : Nat → β) (k : β → β) :
    ((List.range n).map f).modify i k =
      (List.range n).map fun j => if i = j then k (f j) else f j := by
  refine List.ext_getElem? fun j => ?_
  rw [List.getElem?_modify, List.getElem?_map, List.getElem?_map]
  rcases Nat.lt_or_ge j n with hj | hj
  · simp [List.getElem?_range hj]
  · simp [List.getElem?_eq_none (l := List.range n) (by simpa using hj)]

/-- A change concerns one node, and none if the cell is not on the board. -/
theorem change_board (d : Dims) (text : Nat → List Char) (v : Nat) (f : List Char → List Char) :
    (board d text).change (d.cell v) f = board d fun u => if u = v then f (text u) else text u := by
  have hnode {x y : Nat} (hx : x < d.width) :
      d.node ⟨x, y⟩ = v ↔ (d.cell v).y = y ∧ (d.cell v).x = x := by
    constructor
    · rintro rfl
      have hcell : d.cell (d.node ⟨x, y⟩) = ⟨x, y⟩ := Dims.cell_node hx
      rw [hcell]
      exact ⟨rfl, rfl⟩
    · rintro ⟨rfl, rfl⟩
      exact d.node_cell v
  rw [Board.change, board, modify_map_range]
  refine List.map_congr_left fun y _ => ?_
  rw [modify_map_range]
  split
  next hrow =>
    refine List.map_congr_left fun x hx => ?_
    simp only [hnode (List.mem_range.mp hx), hrow, true_and]
  next hrow =>
    refine List.map_congr_left fun x hx => ?_
    simp only [hnode (List.mem_range.mp hx), hrow, false_and, if_false]

theorem blank_eq (g : Grid) (f : Char → List Char) :
    g.blank (f '#') (f '.') = board g.dims fun v => f (g.background v) :=
  congrArg (board g.dims) (funext fun _ => (apply_ite f _ _ _).symm)

/-- One more agent is painted over the others. -/
theorem glyph_concat (g : Grid) (first : Char) (p : α → Bool) (l : List α) (a : α) (v : Nat) :
    g.glyph first p (l ++ [a]) v = if p a then letter first l.length else g.glyph first p l v := by
  rw [glyph, last?_concat]
  split
  · rfl
  · rfl

/-- The paths painted one after the other are those that are drawn. -/
theorem paint_paths (g : Grid) (t : Nat) (paths : List (List Nat)) :
    paths.zipIdx.foldl (paintPath g.dims t) (g.blank ['#'] ['.']) =
      board g.dims fun v => [g.glyph 'A' (fun path => path[t]? == some v) paths v] := by
  induction paths using List.reverseRecOn with
  | nil => exact blank_eq g fun c => [c]
  | append_singleton paths path ih =>
    rw [List.zipIdx_append, List.foldl_append, ih]
    show paintPath g.dims t _ (path, 0 + paths.length) = _
    rw [Nat.zero_add, paintPath]
    simp only [glyph_concat]
    cases path[t]? with
    | none => rfl
    | some u =>
      dsimp only
      rw [change_board]
      congr 1
      funext v
      by_cases hv : v = u
      · simp [hv]
      · simp [hv, Ne.symm hv]

theorem paint_agents (g : Grid) (agents : List Agent) :
    agents.zipIdx.foldl (paintAgent g.dims) (g.blank ['#', '#'] ['.', '.']) =
      board g.dims fun v => [g.glyph 'A' (·.initial == v) agents v,
        g.glyph 'a' (·.goal == v) agents v] := by
  induction agents using List.reverseRecOn with
  | nil => exact blank_eq g fun c => [c, c]
  | append_singleton agents agent ih =>
    rw [List.zipIdx_append, List.foldl_append, ih]
    show paintAgent g.dims _ (agent, 0 + agents.length) = _
    rw [Nat.zero_add, paintAgent, change_board, change_board]
    congr 1
    funext v
    rw [glyph_concat, glyph_concat]
    by_cases hinitial : v = agent.initial
    · by_cases hgoal : v = agent.goal
      · simp [← hinitial, ← hgoal]
      · simp [← hinitial, hgoal, Ne.symm hgoal]
    · by_cases hgoal : v = agent.goal
      · simp [hinitial, ← hgoal, Ne.symm hinitial]
      · simp [hinitial, hgoal, Ne.symm hinitial, Ne.symm hgoal]

theorem places_paths (s : Schedule) (t v : Nat) :
    places (fun path => path[t]? == some v) s.paths = {a | s.position? a t = some v} := by
  ext a
  simp [places, Schedule.position?, Option.bind_eq_some_iff]

theorem draw_congr {text' : Nat → List Char} (h : ∀ v < d.size, text v = text' v) :
    draw d text = draw d text' := by
  have hrows (y : Nat) (hy : y ∈ List.range d.height) :
      ((List.range d.width).map fun x => text (d.node ⟨x, y⟩)) =
        (List.range d.width).map fun x => text' (d.node ⟨x, y⟩) :=
    List.map_congr_left fun x hx =>
      h _ (Dims.node_lt ⟨List.mem_range.mp hx, List.mem_range.mp hy⟩)
  rw [draw, draw]
  congr 1
  exact List.map_congr_left fun y hy => congrArg _ (hrows y hy)

/-- Of a schedule only the positions on the grid are drawn. -/
theorem render_congr
    (h : ∀ v < g.dims.size, ∀ a, s.position? a t = some v ↔ s'.position? a t = some v) :
    g.render s t = g.render s' t := by
  refine draw_congr fun v hv => ?_
  have hsame : places (fun path => path[t]? == some v) s.paths =
      places (fun path => path[t]? == some v) s'.paths := by
    rw [places_paths, places_paths]
    ext a
    exact h v hv a
  rw [last?_congr hsame]

/-- An agent that is nowhere on the grid might as well have no path. -/
theorem render_set (h : ∀ v, s.position? i t = some v → g.dims.size ≤ v) :
    g.render ⟨s.paths.set i []⟩ t = g.render s t := by
  refine render_congr fun v hv a => ?_
  rw [Schedule.position?, List.getElem?_set]
  split
  next hia =>
    subst hia
    refine iff_of_false ?_ fun hpos => absurd (h v hpos) (by omega)
    split
    · simp
    · simp
  next => rfl

end AgentPaths.Grid
