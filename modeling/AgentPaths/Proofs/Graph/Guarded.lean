import AgentPaths.Proofs.Graph.RoundTrip

/-!
Making graphs with every step guarded. Where the functions of a graph take any numbers and pass over
an entry that is not in the table, their guarded forms compute in words, and a number that is no
word and an entry out of the table are misuses. No misuse is ever met: the guarded forms are the
functions.
-/
namespace AgentPaths.Guarded

variable {g : Graph} {n u v : Nat}

/-- A number that has been computed, if it is a word. -/
def word (n : Nat) : Except Misuse Nat := if n < wordBound then .ok n else .error .tooLarge

/-- The number of unordered pairs of nodes below `n`: the product is formed before it is halved. -/
def triangle (n : Nat) : Except Misuse Nat := do
  let next ← word (n + 1)
  let product ← word (n * next)
  return product / 2

def entry (u v : Nat) : Except Misuse Nat := do
  let below ← triangle (max u v)
  word (min u v + below)

/-- The graph of `n` nodes without edges. Here a number that is no word is a defect, and so is a
table for which there is no memory. -/
def ofSize? [Memory] (n : Nat) : Except Defect Graph :=
  match triangle n with
  | .error _ => .error (.tooManyNodes n)
  | .ok entries => if Memory.holds entries then .ok (.empty n) else .error (.tooManyNodes n)

def join (g : Graph) (u v : Nat) : Except Misuse Graph := do
  let i ← entry u v
  if h : i < g.table.size then
    return ⟨g.size, g.table.set i true, by simpa using g.table_size⟩
  else throw .entryMissing

def addEdge (g : Graph) (u v : Nat) : Except Misuse (Except Defect Graph) :=
  match g.edgeDefect? u v with
  | some d => .ok (.error d)
  | none => (join g u v).map .ok

def addEdges (g : Graph) : List (Nat × Nat) → Except Misuse (Except Defect Graph)
  | [] => .ok (.ok g)
  | (u, v) :: rest => match addEdge g u v with
    | .error misuse => .error misuse
    | .ok (.error d) => .ok (.error d)
    | .ok (.ok g) => addEdges g rest

def ofEdgeMap [Memory] (n : Nat) (m : EdgeMap) : Except Misuse (Except Defect Graph) :=
  match Graph.ofSize n with
  | .error misuse => .error misuse
  | .ok g => match m.nodes.find? (n ≤ ·) with
    | some v => .ok (.error (.nodeOutOfRange v n))
    | none => addEdges g m.edges

theorem word_eq (h : n < wordBound) : word n = .ok n := if_pos h

theorem triangle_eq (hnext : n + 1 < wordBound) (hproduct : n * (n + 1) < wordBound) :
    triangle n = .ok (AgentPaths.triangle n) := by
  rw [triangle, word_eq hnext]
  show (word (n * (n + 1)) >>= fun product => pure (product / 2)) = _
  rw [word_eq hproduct]
  rfl

theorem triangle_eq_error (h : ¬(n + 1 < wordBound ∧ n * (n + 1) < wordBound)) :
    triangle n = .error .tooLarge := by
  by_cases hnext : n + 1 < wordBound
  · rw [triangle, word_eq hnext]
    have hproduct : word (n * (n + 1)) = .error .tooLarge := if_neg fun hlt => h ⟨hnext, hlt⟩
    show (word (n * (n + 1)) >>= fun product => pure (product / 2)) = _
    rw [hproduct]
    rfl
  · have hword : word (n + 1) = .error .tooLarge := if_neg hnext
    rw [triangle, hword]
    rfl

/-- A table fits just if its size can be computed in words and there is memory for it. -/
theorem ofSize?_eq [Memory] (n : Nat) : ofSize? n = Graph.ofSize? n := by
  by_cases hwords : n + 1 < wordBound ∧ n * (n + 1) < wordBound
  · have hfits : Fits n ↔ Memory.holds (AgentPaths.triangle n) = true :=
      ⟨fun h => h.2.2, fun h => ⟨hwords.1, hwords.2, h⟩⟩
    rw [ofSize?, triangle_eq hwords.1 hwords.2, Graph.ofSize?]
    simp only [hfits]
  · have hfits : ¬Fits n := fun h => hwords ⟨h.1, h.2.1⟩
    rw [ofSize?, triangle_eq_error hwords, Graph.ofSize?, if_neg hfits]

theorem entry_eq (h : g.EntryFits u v) : entry u v = .ok (Graph.entry u v) := by
  rw [entry, triangle_eq h.next h.product]
  exact word_eq h.sum

theorem join_eq [Memory] (hfits : Fits g.size) (hu : u < g.size) (hv : v < g.size) :
    join g u v = .ok (g.join u v) := by
  have h : g.EntryFits u v := Graph.entryFits hfits hu hv
  rw [join, entry_eq h]
  show (if _ : _ then _ else _) = _
  rw [dif_pos h.inTable]
  simp only [Graph.join, Array.setIfInBounds, dif_pos h.inTable]
  rfl

/-- An edge that is added has its entry in the table, and none of the numbers leaves the words. -/
theorem addEdge_eq [Memory] (hfits : Fits g.size) (u v : Nat) :
    addEdge g u v = .ok (g.addEdge u v) := by
  cases hdefect : g.edgeDefect? u v with
  | some d => rw [addEdge, Graph.addEdge, hdefect]
  | none =>
    have hadd : g.addEdge u v = .ok (g.join u v) := by rw [Graph.addEdge, hdefect]
    obtain ⟨hu, hv, -⟩ := Graph.addEdge_eq_ok.mp hadd
    rw [hadd, addEdge, hdefect]
    dsimp only
    rw [join_eq hfits hu hv]
    rfl

theorem addEdges_eq [Memory] (hfits : Fits g.size) (es : List (Nat × Nat)) :
    addEdges g es = .ok (g.addEdges es) := by
  induction es generalizing g with
  | nil => rfl
  | cons e es ih =>
    rw [addEdges, Graph.addEdges, addEdge_eq hfits]
    cases hadd : g.addEdge e.1 e.2 with
    | error d => rfl
    | ok joined =>
      obtain ⟨-, -, rfl⟩ := Graph.addEdge_eq_ok.mp hadd
      exact ih hfits

theorem ofEdgeMap_eq [Memory] (n : Nat) (m : EdgeMap) : ofEdgeMap n m = Graph.ofEdgeMap n m := by
  rw [ofEdgeMap, Graph.ofEdgeMap]
  cases hsize : Graph.ofSize n with
  | error misuse => rfl
  | ok g =>
    obtain ⟨hfits, rfl⟩ := Graph.ofSize_eq_ok.mp hsize
    dsimp only
    cases m.nodes.find? (n ≤ ·) with
    | some v => rfl
    | none => exact addEdges_eq hfits m.edges

end AgentPaths.Guarded
