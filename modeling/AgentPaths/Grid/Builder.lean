import AgentPaths.Grid

/-!
Building a grid feature by feature. The first feature outside the grid makes a builder invalid, and
an invalid builder takes no more features. What only shows when all features are known, an agent on
a wall or agents that clash, is found by `build`.
-/
namespace AgentPaths

inductive InvalidReason where
  | featureOutOfBounds
  | agentOnWall
  /-- Walls and agents need more cells than the grid has. -/
  | tooCrowded
  | defect (d : Defect)
deriving DecidableEq

inductive BuildError where
  | invalid (reasons : List InvalidReason)
  | misuse (m : Misuse)
deriving DecidableEq

structure GridBuilder where
  dims : Dims
  /-- The initial cell and the goal of each agent. -/
  agents : List (Cell × Cell)
  walls : List Cell
  /-- The pairs of cells whose edge is cut, in one of the two orders. -/
  cuts : List (Cell × Cell)
  reasons : List InvalidReason

namespace GridBuilder

def empty (dims : Dims) : GridBuilder := ⟨dims, [], [], [], []⟩

def default : GridBuilder := empty (.square 4 (Nat.succ_pos 3))

/-- A valid builder whose grid has the cells of a feature takes the feature; one whose grid lacks
them becomes invalid. -/
def place (b : GridBuilder) (cells : List Cell) (feature : GridBuilder → GridBuilder) :
    GridBuilder :=
  if b.reasons ≠ [] then b
  else if ∀ c ∈ cells, b.dims.Contains c then feature b
  else { b with reasons := b.reasons ++ [.featureOutOfBounds] }

/-- Adds an agent; agents are numbered in the order in which they come. -/
def addAgent (b : GridBuilder) (initial goal : Cell) : GridBuilder :=
  b.place [initial, goal] fun b => { b with agents := b.agents ++ [(initial, goal)] }

/-- Makes a cell a wall, which has no edges. -/
def addWall (b : GridBuilder) (c : Cell) : GridBuilder :=
  b.place [c] fun b => if c ∈ b.walls then b else { b with walls := c :: b.walls }

/-- Cuts the edge between two cells; nothing happens if they are not next to each other. -/
def disconnect (b : GridBuilder) (c d : Cell) : GridBuilder :=
  b.place [c, d] fun b =>
    if (Step.between? c d).isSome then { b with cuts := (c, d) :: b.cuts } else b

def invalid? (b : GridBuilder) : Option (List InvalidReason) :=
  if b.reasons = [] then none else some b.reasons

/-- Whether the grid has an edge between two cells that are next to each other. -/
def connects (b : GridBuilder) (c d : Cell) : Bool :=
  decide (b.dims.Contains d) && !b.walls.contains c && !b.walls.contains d &&
    !b.cuts.contains (c, d) && !b.cuts.contains (d, c)

def edges (b : GridBuilder) : List (Cell × Cell) :=
  b.dims.cells.flatMap fun c =>
    ((Step.forward.map (·.move c)).filter (b.connects c)).map fun d => (c, d)

def graph (b : GridBuilder) : Graph :=
  b.edges.foldl (fun g (c, d) => g.join (b.dims.node c) (b.dims.node d)) (.empty b.dims.size)

def nodeAgents (b : GridBuilder) : List Agent :=
  b.agents.map fun (initial, goal) => ⟨b.dims.node initial, b.dims.node goal⟩

/-- What keeps the map of a grid with so many cells from being laid out, if anything does. A cell of
it takes five words. -/
def lack? [Memory] (cells : Nat) : Option Misuse := Memory.lack? (40 * cells)

/-- The grid that has been described, or why there is none: the map of its cells is laid out before
the agents are looked at, and its graph after that. -/
def build [Memory] (b : GridBuilder) : Except BuildError Grid :=
  if b.reasons ≠ [] then .error (.invalid b.reasons)
  else match lack? b.dims.size with
    | some misuse => .error (.misuse misuse)
    | none =>
      if b.agents.any fun (initial, goal) => b.walls.contains initial || b.walls.contains goal then
        .error (.invalid [.agentOnWall])
      else if ¬Fits b.dims.size then .error (.misuse (.graphTooLarge b.dims.size))
      else match Problem.ofAgents b.graph b.nodeAgents with
        | .error d => .error (.invalid [.defect d])
        | .ok p => .ok ⟨b.dims, b.walls, p⟩

end GridBuilder

end AgentPaths
