import AgentPaths.Grid.Cell
import AgentPaths.Problem

/-!
Grids: problems whose nodes are the cells of a rectangle. A square grid can be recovered from its
problem alone, with the nodes that have no edge for walls.
-/
namespace AgentPaths

structure Grid where
  dims : Dims
  walls : List Cell
  problem : Problem

namespace Grid

def side? (n : Nat) : Option Nat := if Nat.sqrt n * Nat.sqrt n = n then some (Nat.sqrt n) else none

theorem side?_eq_some {n s : Nat} : side? n = some s ↔ s * s = n := by
  unfold side?
  constructor
  · intro h
    split at h
    next hn => exact Option.some.inj h ▸ hn
    next => exact absurd h (by simp)
  · rintro rfl
    have hle : Nat.sqrt (s * s) ≤ s := by
      refine Nat.le_of_not_lt fun hlt => ?_
      have := Nat.mul_lt_mul'' hlt hlt
      have := Nat.sqrt_le (s * s)
      omega
    have hge : s ≤ Nat.sqrt (s * s) := by
      refine Nat.le_of_not_lt fun hlt => ?_
      have hsucc : Nat.succ (Nat.sqrt (s * s)) ≤ s := hlt
      have := Nat.mul_le_mul hsucc hsucc
      have := Nat.lt_succ_sqrt (s * s)
      omega
    rw [Nat.le_antisymm hle hge, if_pos rfl]

/-- Whether an edge joins cells that are next to each other, or a cell with itself. -/
def joinsNeighbours (d : Dims) (e : Nat × Nat) : Bool :=
  e.1 == e.2 || (Step.between? (d.cell e.1) (d.cell e.2)).isSome

/-- The square grid of a problem, if its nodes are the cells of a square and its edges fit. -/
def ofProblem? (p : Problem) : Option Grid :=
  match side? p.graph.size with
  | none => none
  | some side =>
    if h : 0 < side then
      let dims := Dims.square side h
      if p.graph.edges.all (joinsNeighbours dims) then
        let isolated := (List.range p.graph.size).filter fun v => (p.graph.neighbours v).isEmpty
        some ⟨dims, isolated.map dims.cell, p⟩
      else none
    else none

end Grid

end AgentPaths
