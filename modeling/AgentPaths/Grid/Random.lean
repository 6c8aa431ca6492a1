import AgentPaths.Grid.Builder

/-!
Random square grids. Walls are the first cells of one shuffle of all cells; the cells after them are
free, and the agents start on the first of those and finish on the first of them after a second
shuffle.
-/
namespace AgentPaths

namespace GridBuilder

/-- The whole part of `percent` hundredths of `n`; no product is greater than `n` times 100. -/
def share (n percent : Nat) : Nat := n / 100 * percent + n % 100 * percent / 100

theorem share_eq (n percent : Nat) : share n percent = n * percent / 100 := by
  have hn := Nat.div_add_mod n 100
  have hprod : n * percent = n % 100 * percent + n / 100 * percent * 100 := by
    conv => lhs; rw [← hn]
    rw [Nat.add_mul, Nat.add_comm, Nat.mul_assoc, Nat.mul_comm 100]
  rw [hprod, Nat.add_mul_div_right _ _ (by decide), share, Nat.add_comm]

/-- Whether these hundredths of walls and agents leave no cell, or are not counted at all. -/
def Crowded (cells wallPercent agentPercent : Nat) : Prop :=
  wordBound ≤ cells ∨ 100 < wallPercent ∨ 100 < agentPercent ∨
    cells ≤ share cells wallPercent + share cells agentPercent

instance (cells wallPercent agentPercent : Nat) :
    Decidable (Crowded cells wallPercent agentPercent) :=
  inferInstanceAs (Decidable (_ ∨ _ ∨ _ ∨ _))

/-- A random square grid, whose walls and agents take the given hundredths of its cells. The
shuffles are drawn with `shuffle` from the states `σ`, and the first one is of a list of all
cells, with a word for each. -/
def random [Memory] {σ : Type} (shuffle : List Nat → σ → List Nat × σ) (side : Nat)
    (hside : 0 < side) (wallPercent agentPercent : Nat) (state : σ) : Except Misuse GridBuilder :=
  let b := empty (.square side hside)
  let cells := side * side
  let wallCount := share cells wallPercent
  let agentCount := share cells agentPercent
  if Crowded cells wallPercent agentPercent then .ok { b with reasons := [.tooCrowded] }
  else match Memory.lack? (8 * cells) with
    | some misuse => .error misuse
    | none =>
      let (nodes, state) := shuffle (List.range cells) state
      let free := nodes.drop wallCount
      let (shuffled, _) := shuffle free state
      let b := (nodes.take wallCount).foldl (fun b v => b.addWall (b.dims.cell v)) b
      .ok <| ((free.take agentCount).zip (shuffled.take agentCount)).foldl
        (fun b (initial, goal) => b.addAgent (b.dims.cell initial) (b.dims.cell goal)) b

end GridBuilder

/-- What keeps a random grid of so many cells from being made, if anything does: its cells have to
be listed, and the map of its cells and its graph to be laid out. -/
def Grid.lack? [Memory] (cells : Nat) : Option Misuse :=
  (Memory.lack? (8 * cells)).or <| (GridBuilder.lack? cells).or <|
    if Fits cells then none else some (.graphTooLarge cells)

/-- The grid of a random builder. No agent of it is on a wall, so that cells are only listed if
there can be a grid of them. -/
def Grid.random [Memory] {σ : Type} (shuffle : List Nat → σ → List Nat × σ) (side : Nat)
    (hside : 0 < side) (wallPercent agentPercent : Nat) (state : σ) : Except BuildError Grid :=
  let cells := side * side
  match if GridBuilder.Crowded cells wallPercent agentPercent then none else Grid.lack? cells with
  | some misuse => .error (.misuse misuse)
  | none => match GridBuilder.random shuffle side hside wallPercent agentPercent state with
    | .error misuse => .error (.misuse misuse)
    | .ok b => b.build

end AgentPaths
