import AgentPaths.Proofs.Graph.Table

/-!
What a graph is after calls that add edges. A call that names a node outside leaves the graph as it
is; the others are all that counts, as a set of unordered pairs. Whatever is asked of the graph is
answered from that set, and no entry of the table is ever looked for outside of it.
-/
namespace AgentPaths.Graph

variable {g : Graph} {n u v : Nat} {calls : List (Nat × Nat)}

/-- The graph after a call that adds an edge; one that fails leaves it as it is. -/
def afterCall (g : Graph) (e : Nat × Nat) : Graph :=
  match g.addEdge e.1 e.2 with
  | .error _ => g
  | .ok h => h

def afterCalls (g : Graph) (calls : List (Nat × Nat)) : Graph := calls.foldl afterCall g

/-- One of the calls has named `u` and `v`, in this order, and has succeeded. -/
def Added (g : Graph) (calls : List (Nat × Nat)) (u v : Nat) : Prop :=
  ∃ before rest, calls = before ++ (u, v) :: rest ∧
    ∃ h, (g.afterCalls before).addEdge u v = .ok h

/-- A successful call has named the two nodes, in either order. -/
def Joined (g : Graph) (calls : List (Nat × Nat)) (u v : Nat) : Prop :=
  Added g calls u v ∨ Added g calls v u

/-- The entry of `u` and `v` lies in the table, and no number on the way to it leaves the words,
although the product is formed before it is halved. -/
structure EntryFits (g : Graph) (u v : Nat) : Prop where
  next : max u v + 1 < wordBound
  product : max u v * (max u v + 1) < wordBound
  sum : min u v + max u v * (max u v + 1) / 2 < wordBound
  inTable : entry u v < g.table.size

/-- The answers of a graph of `n` nodes whose edges join what `joined` says, in both directions. -/
structure Answers (g : Graph) (n : Nat) (joined : Nat → Nat → Prop) : Prop where
  size : g.size = n
  edge : ∀ u v, u < n → v < n → ∃ b, g.edge u v = .ok b ∧ (b = true ↔ joined u v)
  edges : ∀ u v, (u, v) ∈ g.edges ↔ u ≤ v ∧ joined u v
  increasing : g.edges.Pairwise (Prod.Lex (· < ·) (· < ·))
  edgeCount : g.edgeCount = g.edges.length
  neighbours : ∀ v < n, ∃ us, g.neighboursOf v = .ok us ∧ us.Pairwise (· < ·) ∧
    ∀ u, u ∈ us ↔ joined v u

theorem entryFits [Memory] (hfits : Fits g.size) (hu : u < g.size) (hv : v < g.size) :
    g.EntryFits u v := by
  have hmax : Fits (max u v) := hfits.mono (by omega)
  have hentry : entry u v < triangle g.size := entry_lt hu hv
  constructor
  · exact hmax.1
  · exact hmax.2.1
  · calc entry u v
      _ < triangle g.size := hentry
      _ ≤ g.size * (g.size + 1) := Nat.div_le_self _ _
      _ ≤ wordBound := Nat.le_of_lt hfits.2.1
  · rwa [g.table_size]

theorem pairwise_edges (g : Graph) : g.edges.Pairwise (Prod.Lex (· < ·) (· < ·)) := by
  rw [edges, List.pairwise_flatMap]
  constructor
  · intro u _
    rw [List.pairwise_map]
    apply ((List.pairwise_lt_range' 1).filter _).imp
    intro v w hlt
    exact .right u hlt
  · apply List.pairwise_lt_range.imp
    intro u x hlt e he e' he'
    obtain ⟨v, _, rfl⟩ := List.mem_map.mp he
    obtain ⟨w, _, rfl⟩ := List.mem_map.mp he'
    exact .left v w hlt

theorem pairwise_neighbours (g : Graph) (v : Nat) : (g.neighbours v).Pairwise (· < ·) :=
  List.pairwise_lt_range.filter _

/-- A graph is asked for nothing but its edges. -/
theorem answers_of_hasEdge {joined : Nat → Nat → Prop} (hsize : g.size = n)
    (hedge : ∀ u v, g.hasEdge u v = true ↔ joined u v) : Answers g n joined where
  size := hsize
  edge u v hu hv := ⟨g.hasEdge u v, if_pos (hsize ▸ ⟨hu, hv⟩), hedge u v⟩
  edges u v := by rw [mem_edges, hedge]
  increasing := g.pairwise_edges
  edgeCount := g.edgeCount_eq_length_edges
  neighbours v hv := ⟨g.neighbours v, if_pos (Or.inl (hsize ▸ hv)), g.pairwise_neighbours v,
    fun u => by rw [mem_neighbours, hedge]⟩

theorem afterCall_eq (g : Graph) (e : Nat × Nat) :
    g.afterCall e = if e.1 < g.size ∧ e.2 < g.size then g.join e.1 e.2 else g := by
  unfold afterCall
  split
  next d hd =>
    rw [if_neg]
    intro hin
    rw [addEdge_eq_ok.mpr ⟨hin.1, hin.2, rfl⟩] at hd
    cases hd
  next h hh =>
    obtain ⟨hu, hv, rfl⟩ := addEdge_eq_ok.mp hh
    rw [if_pos ⟨hu, hv⟩]

theorem size_afterCall (g : Graph) (e : Nat × Nat) : (g.afterCall e).size = g.size := by
  rw [afterCall_eq]
  split <;> rfl

/-- Of the calls those within the graph add their edges. -/
theorem afterCalls_eq_joinAll (g : Graph) (calls : List (Nat × Nat)) :
    g.afterCalls calls = g.joinAll (calls.filter fun e => e.1 < g.size ∧ e.2 < g.size) := by
  induction calls generalizing g with
  | nil => rfl
  | cons e calls ih =>
    have hrest : g.afterCalls (e :: calls) = (g.afterCall e).afterCalls calls := rfl
    rw [hrest, ih, size_afterCall, afterCall_eq, List.filter_cons]
    simp only [decide_eq_true_eq]
    split <;> rfl

theorem size_afterCalls (g : Graph) (calls : List (Nat × Nat)) :
    (g.afterCalls calls).size = g.size := by
  rw [afterCalls_eq_joinAll, size_joinAll]

/-- The successful calls are those within the graph. -/
theorem added_iff : Added g calls u v ↔ u < g.size ∧ v < g.size ∧ (u, v) ∈ calls := by
  simp only [Added, addEdge_eq_ok, size_afterCalls]
  constructor
  · intro h
    obtain ⟨before, rest, rfl, _, hu, hv, _⟩ := h
    exact ⟨hu, hv, by simp⟩
  · intro h
    obtain ⟨hu, hv, hmem⟩ := h
    obtain ⟨before, rest, heq⟩ := List.append_of_mem hmem
    exact ⟨before, rest, heq, _, hu, hv, rfl⟩

theorem hasEdge_afterCalls : (g.afterCalls calls).hasEdge u v = true ↔
    g.hasEdge u v = true ∨ Joined g calls u v := by
  have hinside : ∀ e ∈ calls.filter fun e => e.1 < g.size ∧ e.2 < g.size,
      e.1 < g.size ∧ e.2 < g.size := by
    intro e he
    exact of_decide_eq_true (List.mem_filter.mp he).2
  rw [afterCalls_eq_joinAll, hasEdge_joinAll hinside, Joined, added_iff, added_iff]
  simp only [List.mem_filter, decide_eq_true_eq]
  tauto

section OfSize

variable {n' : Nat} {g' : Graph} {calls' : List (Nat × Nat)}

theorem size_of_ofSize? [Memory] (hg : ofSize? n = .ok g) (calls : List (Nat × Nat)) :
    (g.afterCalls calls).size = n := by
  rw [size_afterCalls, (ofSize?_eq_ok.mp hg).2, size_empty]

/-- A graph begins without edges. -/
theorem hasEdge_of_ofSize? [Memory] (hg : ofSize? n = .ok g) (u v : Nat) :
    (g.afterCalls calls).hasEdge u v = true ↔ Joined g calls u v := by
  rw [hasEdge_afterCalls, (ofSize?_eq_ok.mp hg).2, hasEdge_empty]
  simp

theorem afterCalls_eq_iff [Memory] (hg : ofSize? n = .ok g) (hg' : ofSize? n' = .ok g') :
    g.afterCalls calls = g'.afterCalls calls' ↔
      n = n' ∧ ∀ u v, Joined g calls u v ↔ Joined g' calls' u v := by
  constructor
  · intro heq
    constructor
    · rw [← size_of_ofSize? hg calls, heq, size_of_ofSize? hg' calls']
    · intro u v
      rw [← hasEdge_of_ofSize? hg, heq, hasEdge_of_ofSize? hg']
  · intro hboth
    apply ext_hasEdge
    · rw [size_of_ofSize? hg, size_of_ofSize? hg', hboth.1]
    · intro u v
      rw [hasEdge_of_ofSize? hg, hasEdge_of_ofSize? hg', hboth.2]

end OfSize

/-- A graph that has been made and added to answers as the set of the pairs that successful calls
have named, and two such graphs are equal just if they have as many nodes and join the same ones. -/
theorem edgeSet_exact [Memory] (hg : ofSize? n = .ok g) (calls : List (Nat × Nat)) :
    (∀ u v, u < n → v < n → (g.afterCalls calls).EntryFits u v) ∧
    Answers (g.afterCalls calls) n (Joined g calls) ∧
    ∀ n' g' calls', ofSize? n' = .ok g' → (g.afterCalls calls = g'.afterCalls calls' ↔
      n = n' ∧ ∀ u v, Joined g calls u v ↔ Joined g' calls' u v) := by
  have hsize := size_of_ofSize? hg calls
  refine ⟨?_, answers_of_hasEdge hsize (hasEdge_of_ofSize? hg), fun _ _ _ => afterCalls_eq_iff hg⟩
  intro u v hu hv
  rw [← hsize] at hu hv
  exact entryFits (hsize ▸ (ofSize?_eq_ok.mp hg).1) hu hv

/-- Calls on four nodes: an edge named in both orders, a loop, and a node outside. -/
def callsOnFour : List (Nat × Nat) := [(2, 0), (1, 9), (3, 3), (0, 2)]

section

attribute [local instance] Memory.ample

/-- The same edges come of fewer calls in another order. -/
theorem edgeSet_exact_four : ofSize? 4 = .ok (empty 4) ∧
    ((empty 4).afterCalls callsOnFour).EntryFits 2 3 ∧
    Answers ((empty 4).afterCalls callsOnFour) 4 (Joined (empty 4) callsOnFour) ∧
    ((empty 4).afterCalls callsOnFour).edges = [(0, 2), (3, 3)] ∧
    ((empty 4).afterCalls callsOnFour = (empty 4).afterCalls [(3, 3), (2, 0)] ↔
      4 = 4 ∧ ∀ u v, Joined (empty 4) callsOnFour u v ↔ Joined (empty 4) [(3, 3), (2, 0)] u v) := by
  have hfour : ofSize? 4 = .ok (empty 4) := by decide
  obtain ⟨hentry, hanswers, hequal⟩ := edgeSet_exact hfour callsOnFour
  exact ⟨hfour, hentry 2 3 (by decide) (by decide), hanswers, by decide, hequal 4 _ _ hfour⟩

end

end AgentPaths.Graph
