import AgentPaths.Defect
import AgentPaths.Memory

/-!
Undirected graphs over the nodes `0, …, size - 1`. The edges are kept in one triangular table with
an entry for every unordered pair of nodes, so that an edge is one entry seen from both of its ends,
and two graphs are equal exactly when they have the same size and the same edges.
-/
namespace AgentPaths

/-- The number of unordered pairs of nodes below `n`, a node with itself included. -/
@[inline] def triangle (n : Nat) : Nat := n * (n + 1) / 2

theorem triangle_succ (n : Nat) : triangle (n + 1) = triangle n + (n + 1) := by
  have h : (n + 1) * (n + 1 + 1) = n * (n + 1) + 2 * (n + 1) := by
    rw [Nat.mul_comm (n + 1) (n + 1 + 1), Nat.add_mul n 2 (n + 1)]
  rw [triangle, h, Nat.add_mul_div_left _ _ (by decide), triangle]

theorem triangle_mono {m n : Nat} (h : m ≤ n) : triangle m ≤ triangle n :=
  Nat.div_le_div_right (Nat.mul_le_mul h (Nat.add_le_add_right h 1))

/-- The entries of the edge table for `n` nodes can be counted with 64 bits, and memory has a byte
for each of them. -/
def Fits [Memory] (n : Nat) : Prop :=
  n + 1 < wordBound ∧ n * (n + 1) < wordBound ∧ Memory.holds (triangle n) = true

instance [Memory] (n : Nat) : Decidable (Fits n) := inferInstanceAs (Decidable (_ ∧ _ ∧ _))

theorem Fits.mono [Memory] {m n : Nat} (h : Fits n) (hmn : m ≤ n) : Fits m := by
  have hprod : m * (m + 1) ≤ n * (n + 1) := Nat.mul_le_mul hmn (Nat.add_le_add_right hmn 1)
  obtain ⟨hsucc, hmul, htable⟩ := h
  exact ⟨by omega, by omega, Memory.holds_mono (triangle_mono hmn) htable⟩

structure Graph where
  size : Nat
  table : Array Bool
  table_size : table.size = triangle size
deriving DecidableEq

namespace Graph

/-- The entry of the pair of `u` and `v`: the pairs below the larger node come first. -/
@[inline] def entry (u v : Nat) : Nat := min u v + triangle (max u v)

theorem entry_comm (u v : Nat) : entry u v = entry v u := by
  simp only [entry, Nat.min_comm, Nat.max_comm]

theorem entry_lt {u v n : Nat} (hu : u < n) (hv : v < n) : entry u v < triangle n := by
  have hstep := triangle_succ (max u v)
  have hmono := triangle_mono (show max u v + 1 ≤ n by omega)
  unfold entry
  omega

theorem le_entry {u v n : Nat} (h : n ≤ max u v) : triangle n ≤ entry u v :=
  Nat.le_trans (triangle_mono h) (Nat.le_add_left _ _)

theorem entry_inj {u v x y : Nat} (h : entry u v = entry x y) :
    min u v = min x y ∧ max u v = max x y := by
  have hmax : max u v = max x y := by
    rcases Nat.lt_trichotomy (max u v) (max x y) with hlt | heq | hgt
    · have hstep := triangle_succ (max u v)
      have hmono := triangle_mono (show max u v + 1 ≤ max x y from hlt)
      unfold entry at h
      omega
    · exact heq
    · have hstep := triangle_succ (max x y)
      have hmono := triangle_mono (show max x y + 1 ≤ max u v from hgt)
      unfold entry at h
      omega
  refine ⟨?_, hmax⟩
  unfold entry at h
  rw [hmax] at h
  omega

def empty (n : Nat) : Graph := ⟨n, Array.replicate (triangle n) false, Array.size_replicate⟩

/-- The graph of `n` nodes without edges, if its table fits. -/
def ofSize? [Memory] (n : Nat) : Except Defect Graph :=
  if Fits n then .ok (empty n) else .error (.tooManyNodes n)

/-- The graph of `n` nodes without edges; the caller answers for its size. -/
def ofSize [Memory] (n : Nat) : Except Misuse Graph :=
  if Fits n then .ok (empty n) else .error (.graphTooLarge n)

/-- Joins `u` and `v`; a pair outside the graph changes nothing. -/
def join (g : Graph) (u v : Nat) : Graph :=
  ⟨g.size, g.table.setIfInBounds (entry u v) true, by simpa using g.table_size⟩

/-- The defect of an edge between `u` and `v`: the first of them that the graph lacks. -/
def edgeDefect? (g : Graph) (u v : Nat) : Option Defect :=
  if g.size ≤ u then some (.nodeOutOfRange u g.size)
  else if g.size ≤ v then some (.nodeOutOfRange v g.size)
  else none

def addEdge (g : Graph) (u v : Nat) : Except Defect Graph :=
  match g.edgeDefect? u v with
  | some d => .error d
  | none => .ok (g.join u v)

/-- Whether an edge joins `u` and `v`; outside the graph there are none. -/
@[inline] def hasEdge (g : Graph) (u v : Nat) : Bool := g.table.getD (entry u v) false

/-- Whether an edge joins `u` and `v`, asked of two nodes of the graph. -/
def edge (g : Graph) (u v : Nat) : Except Misuse Bool :=
  if u < g.size ∧ v < g.size then .ok (g.hasEdge u v) else .error (.edgeOutside u v g.size)

/-- The nodes that share an edge with `v`, in increasing order. -/
def neighbours (g : Graph) (v : Nat) : List Nat := (List.range g.size).filter (g.hasEdge v)

/-- The nodes that share an edge with a node `v` of the graph: each is asked for in turn, so that a
graph without nodes has an answer for every `v`. -/
def neighboursOf (g : Graph) (v : Nat) : Except Misuse (List Nat) :=
  if v < g.size ∨ g.size = 0 then .ok (g.neighbours v) else .error (.edgeOutside v 0 g.size)

/-- The other nodes that share an edge with each node, in increasing order. -/
def exits (g : Graph) : Array (List Nat) :=
  Array.ofFn fun v : Fin g.size => (g.neighbours v).filter (· != v.val)

def edgeCount (g : Graph) : Nat := g.table.count true

/-- Every edge once, the smaller node first, in increasing order. -/
def edges (g : Graph) : List (Nat × Nat) :=
  (List.range g.size).flatMap fun u =>
    ((List.range' u (g.size - u)).filter (g.hasEdge u)).map fun v => (u, v)

@[simp] theorem size_empty (n : Nat) : (empty n).size = n := rfl

@[simp] theorem size_join (g : Graph) (u v : Nat) : (g.join u v).size = g.size := rfl

theorem hasEdge_eq_getElem? (g : Graph) (u v : Nat) :
    g.hasEdge u v = g.table[entry u v]?.getD false := Array.getD_eq_getD_getElem?

theorem hasEdge_comm (g : Graph) (u v : Nat) : g.hasEdge u v = g.hasEdge v u := by
  rw [hasEdge, hasEdge, entry_comm]

@[simp] theorem hasEdge_empty (n u v : Nat) : (empty n).hasEdge u v = false := by
  rw [hasEdge_eq_getElem?, empty]
  simp only [Array.getElem?_replicate]
  split <;> rfl

theorem lt_of_hasEdge {g : Graph} {u v : Nat} (h : g.hasEdge u v = true) :
    u < g.size ∧ v < g.size := by
  have hentry : entry u v < triangle g.size := by
    rw [← g.table_size]
    rw [hasEdge_eq_getElem?] at h
    by_cases hlt : entry u v < g.table.size
    · exact hlt
    · rw [Array.getElem?_eq_none (by omega)] at h
      exact absurd h (by decide)
  by_cases hmax : max u v < g.size
  · omega
  · have := le_entry (show g.size ≤ max u v by omega)
    omega

/-- After a join there is the new edge, from both ends, and every earlier one. -/
theorem hasEdge_join {g : Graph} {u v : Nat} (hu : u < g.size) (hv : v < g.size) (x y : Nat) :
    (g.join u v).hasEdge x y = true ↔
      g.hasEdge x y = true ∨ (x = u ∧ y = v) ∨ (x = v ∧ y = u) := by
  have hlt : entry u v < g.table.size := g.table_size ▸ entry_lt hu hv
  rw [hasEdge_eq_getElem?, hasEdge_eq_getElem?]
  unfold join
  simp only [Array.getElem?_setIfInBounds, hlt, ↓reduceIte]
  by_cases hxy : entry u v = entry x y
  · have := entry_inj hxy
    simp only [hxy, ↓reduceIte, Option.getD_some, true_iff]
    omega
  · have hne : ¬((x = u ∧ y = v) ∨ (x = v ∧ y = u)) := by
      rintro (⟨rfl, rfl⟩ | ⟨rfl, rfl⟩)
      · exact hxy rfl
      · exact hxy (entry_comm _ _)
    simp [hxy, hne]

@[simp] theorem mem_neighbours {g : Graph} {u v : Nat} :
    u ∈ g.neighbours v ↔ g.hasEdge v u = true := by
  rw [neighbours, List.mem_filter, List.mem_range]
  exact ⟨And.right, fun h => ⟨(lt_of_hasEdge h).2, h⟩⟩

theorem getD_exits (g : Graph) (v : Nat) :
    g.exits.getD v [] = (g.neighbours v).filter (· != v) := by
  unfold exits
  by_cases h : v < g.size
  · simp [Array.getD, h]
  · have hnone : g.neighbours v = [] := List.filter_eq_nil_iff.mpr fun u _ he =>
      h (lt_of_hasEdge he).1
    simp [Array.getD, h, hnone]

@[simp] theorem mem_edges {g : Graph} {u v : Nat} :
    (u, v) ∈ g.edges ↔ u ≤ v ∧ g.hasEdge u v = true := by
  simp only [edges, List.mem_flatMap, List.mem_range, List.mem_map, List.mem_filter,
    List.mem_range'_1, Prod.mk.injEq]
  constructor
  · rintro ⟨x, _, y, ⟨⟨hxy, _⟩, he⟩, rfl, rfl⟩
    exact ⟨hxy, he⟩
  · rintro ⟨huv, he⟩
    have := lt_of_hasEdge he
    exact ⟨u, this.1, v, ⟨⟨huv, by omega⟩, he⟩, rfl, rfl⟩

end Graph

end AgentPaths
