import AgentPaths.Grid
import AgentPaths.Schedule
import AgentPaths.Text.Line

/-!
Drawings of a grid: one line for each row, its cells apart by blanks. Agents are drawn as letters,
which are used again after 26 agents; where several agents are on one cell, the last one is drawn.
-/
namespace AgentPaths.Grid

/-- The letter of an agent in the alphabet that begins with `first`. -/
def letter (first : Char) (agent : Nat) : Char := .ofNat (first.toNat + agent % 26)

/-- The drawing with the given text in the cell of each node. -/
def draw (d : Dims) (text : Nat → List Char) : List Char :=
  Text.unlines ((List.range d.height).map fun y =>
    [' '].intercalate ((List.range d.width).map fun x => text (d.node ⟨x, y⟩)))

def background (g : Grid) (v : Nat) : Char := if g.walls.contains (g.dims.cell v) then '#' else '.'

/-- The last of some things numbered from 0 for which `p` holds. -/
def last? (p : α → Bool) (l : List α) : Option Nat :=
  ((l.zipIdx.filter fun x => p x.1).getLast?).map Prod.snd

/-- Every cell with the agent that starts there and the agent whose goal it is. -/
def layout (g : Grid) : List Char :=
  draw g.dims fun v =>
    let agents := g.problem.agents
    [((last? (·.initial == v) agents).map (letter 'A')).getD (g.background v),
      ((last? (·.goal == v) agents).map (letter 'a')).getD (g.background v)]

/-- Every cell with the agent of a schedule that is there at a time. -/
def render (g : Grid) (s : Schedule) (time : Nat) : List Char :=
  draw g.dims fun v =>
    [((last? (fun path => path[time]? == some v) s.paths).map (letter 'A')).getD (g.background v)]

end AgentPaths.Grid
