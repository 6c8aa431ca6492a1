import AgentPaths.Word

/-!
Cells of a rectangular grid. The cell in the top left corner is `(0, 0)`, and the cells are numbered
row by row. Coordinates are words of 64 bits, so that a step off the grid at 0 leads to the largest
word.
-/
namespace AgentPaths

structure Cell where
  x : Nat
  y : Nat
deriving DecidableEq

/-- A step to one of the four cells next to a cell. -/
inductive Step where
  | up
  | down
  | left
  | right
deriving DecidableEq

namespace Step

def all : List Step := [up, down, left, right]

/-- The steps to a higher number; along them every pair of cells that are next to each other is met
once. -/
def forward : List Step := [right, down]

def succ (n : Nat) : Nat := (n + 1) % wordBound

def pred (n : Nat) : Nat := (n + (wordBound - 1)) % wordBound

/-- The cell one step away; it may be off the grid. -/
def move (s : Step) (c : Cell) : Cell :=
  match s with
  | up => ⟨c.x, pred c.y⟩
  | down => ⟨c.x, succ c.y⟩
  | left => ⟨pred c.x, c.y⟩
  | right => ⟨succ c.x, c.y⟩

def between? (a b : Cell) : Option Step := all.find? fun s => s.move a = b

theorem succ_of_lt {n m : Nat} (h : n < m) (hm : m < wordBound) : succ n = n + 1 :=
  Nat.mod_eq_of_lt (by omega)

theorem pred_succ {n : Nat} (h : n + 1 < wordBound) : pred (n + 1) = n := by
  unfold pred
  unfold wordBound at h ⊢
  omega

theorem between?_isSome {a b : Cell} :
    (between? a b).isSome = true ↔ ∃ s : Step, s.move a = b := by
  rw [between?, List.find?_isSome]
  constructor
  · rintro ⟨s, _, h⟩
    exact ⟨s, of_decide_eq_true h⟩
  · rintro ⟨s, h⟩
    exact ⟨s, by cases s <;> decide, decide_eq_true h⟩

end Step

/-- The size of a grid that has at least one cell. -/
structure Dims where
  width : Nat
  height : Nat
  width_pos : 0 < width
  height_pos : 0 < height

namespace Dims

def square (side : Nat) (h : 0 < side) : Dims := ⟨side, side, h, h⟩

def Contains (d : Dims) (c : Cell) : Prop := c.x < d.width ∧ c.y < d.height

instance (d : Dims) (c : Cell) : Decidable (d.Contains c) := inferInstanceAs (Decidable (_ ∧ _))

def size (d : Dims) : Nat := d.width * d.height

def node (d : Dims) (c : Cell) : Nat := c.x + c.y * d.width

def cell (d : Dims) (v : Nat) : Cell := ⟨v % d.width, v / d.width⟩

/-- The cells column by column, each column from the top. -/
def cells (d : Dims) : List Cell :=
  (List.range d.width).flatMap fun x => (List.range d.height).map fun y => ⟨x, y⟩

@[simp] theorem mem_cells {d : Dims} {c : Cell} : c ∈ d.cells ↔ d.Contains c := by
  simp only [cells, List.mem_flatMap, List.mem_range, List.mem_map, Contains]
  constructor
  · rintro ⟨x, hx, y, hy, rfl⟩
    exact ⟨hx, hy⟩
  · rintro ⟨hx, hy⟩
    exact ⟨c.x, hx, c.y, hy, rfl⟩

theorem node_lt {d : Dims} {c : Cell} (h : d.Contains c) : d.node c < d.size := by
  have hrow : (c.y + 1) * d.width ≤ d.height * d.width := Nat.mul_le_mul_right _ h.2
  have hx := h.1
  rw [Nat.add_mul, Nat.one_mul] at hrow
  unfold node size
  rw [Nat.mul_comm d.width]
  omega

theorem cell_node {d : Dims} {c : Cell} (h : c.x < d.width) : d.cell (d.node c) = c := by
  unfold cell node
  rw [Nat.add_mul_mod_self_right, Nat.mod_eq_of_lt h, Nat.add_mul_div_right _ _ d.width_pos,
    Nat.div_eq_of_lt h, Nat.zero_add]

@[simp] theorem node_cell (d : Dims) (v : Nat) : d.node (d.cell v) = v := by
  unfold cell node
  rw [Nat.mul_comm]
  exact Nat.mod_add_div v d.width

theorem contains_cell {d : Dims} {v : Nat} : d.Contains (d.cell v) ↔ v < d.size := by
  have hx : v % d.width < d.width := Nat.mod_lt _ d.width_pos
  unfold Contains cell size
  rw [Nat.div_lt_iff_lt_mul d.width_pos, Nat.mul_comm d.width]
  exact ⟨And.right, fun h => ⟨hx, h⟩⟩

end Dims

end AgentPaths
