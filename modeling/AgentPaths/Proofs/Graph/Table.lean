import Mathlib.Data.List.Nodup
import AgentPaths.Graph

/-!
The edge table seen as a set of pairs. Every entry of the table belongs to a pair of nodes, so that
the edges determine the graph, and counting the entries that are set counts the listed edges.
-/
namespace AgentPaths.Graph

variable {g h : Graph} {n u v : Nat}

/-- Every entry of the table belongs to a pair: `entry` is onto. -/
theorem exists_entry {i : Nat} (hi : i < triangle n) : ∃ u v, u ≤ v ∧ v < n ∧ entry u v = i := by
  induction n with
  | zero => exact absurd hi (Nat.not_lt_zero i)
  | succ n ih =>
    by_cases hlt : i < triangle n
    · obtain ⟨u, v, huv, hv, he⟩ := ih hlt
      exact ⟨u, v, huv, Nat.lt_succ_of_lt hv, he⟩
    · -- the pairs whose larger node is `n` fill the rest of the table
      rw [triangle_succ] at hi
      refine ⟨i - triangle n, n, by omega, Nat.lt_succ_self n, ?_⟩
      rw [entry, Nat.min_eq_left (by omega), Nat.max_eq_right (by omega)]
      omega

theorem ext_hasEdge (hsize : g.size = h.size)
    (hedge : ∀ u v, g.hasEdge u v = true ↔ h.hasEdge u v = true) : g = h := by
  obtain ⟨n, table, htable⟩ := g
  obtain ⟨_, table', htable'⟩ := h
  obtain rfl : n = _ := hsize
  congr
  apply Array.ext (htable.trans htable'.symm)
  intro i hi hi'
  obtain ⟨u, v, -, -, rfl⟩ := exists_entry (htable ▸ hi)
  have hboth := hedge u v
  simp only [hasEdge, Array.getD, dif_pos hi, dif_pos hi'] at hboth
  exact Bool.eq_iff_iff.mpr hboth

theorem ofSize?_eq_ok [Memory] : ofSize? n = .ok g ↔ Fits n ∧ g = empty n := by
  unfold ofSize?
  split
  next h => rw [Except.ok.injEq, and_iff_right h, eq_comm]
  next h => exact iff_of_false (by simp) fun hboth => h hboth.1

theorem ofSize?_eq_error [Memory] {d : Defect} :
    ofSize? n = .error d ↔ ¬Fits n ∧ d = .tooManyNodes n := by
  unfold ofSize?
  split <;> simp_all [eq_comm]

theorem addEdge_eq_ok : g.addEdge u v = .ok h ↔ u < g.size ∧ v < g.size ∧ h = g.join u v := by
  unfold addEdge edgeDefect?
  by_cases hu : u < g.size
  · by_cases hv : v < g.size
    · simp [Nat.not_le.mpr hu, Nat.not_le.mpr hv, hu, hv, eq_comm]
    · simp [Nat.not_le.mpr hu, Nat.not_lt.mp hv, hv]
  · simp [Nat.not_lt.mp hu, hu]

/-- The graph with the further edges `es`. -/
def joinAll (g : Graph) (es : List (Nat × Nat)) : Graph := es.foldl (fun g e => g.join e.1 e.2) g

@[simp] theorem size_joinAll (g : Graph) (es : List (Nat × Nat)) :
    (g.joinAll es).size = g.size := by
  induction es generalizing g with
  | nil => rfl
  | cons e es ih => exact ih (g.join e.1 e.2)

theorem hasEdge_joinAll {es : List (Nat × Nat)} (hes : ∀ e ∈ es, e.1 < g.size ∧ e.2 < g.size) :
    (g.joinAll es).hasEdge u v = true ↔
      g.hasEdge u v = true ∨ (u, v) ∈ es ∨ (v, u) ∈ es := by
  induction es generalizing g with
  | nil => simp [joinAll]
  | cons e es ih =>
    obtain ⟨⟨hx, hy⟩, hrest⟩ := List.forall_mem_cons.mp hes
    have hadd := hasEdge_join hx hy u v
    have hgo : (g.joinAll (e :: es)).hasEdge u v = true ↔ (g.join e.1 e.2).hasEdge u v = true ∨
        (u, v) ∈ es ∨ (v, u) ∈ es := ih hrest
    rw [hgo, hadd, List.mem_cons, List.mem_cons, Prod.ext_iff, Prod.ext_iff, or_assoc,
      or_or_or_comm, and_comm (a := u = e.2)]

/-- The listed edges give back the graph. -/
theorem joinAll_edges (g : Graph) : (empty g.size).joinAll g.edges = g := by
  have hinside : ∀ e ∈ g.edges, e.1 < g.size ∧ e.2 < g.size := fun e he =>
    lt_of_hasEdge (mem_edges.mp he).2
  refine ext_hasEdge (size_joinAll _ _) fun u v => ?_
  rw [hasEdge_joinAll ((size_empty g.size).symm ▸ hinside), hasEdge_empty, mem_edges, mem_edges,
    g.hasEdge_comm v u, ← or_and_right]
  simp [Nat.le_total]

theorem nodup_edges (g : Graph) : g.edges.Nodup := by
  rw [edges, List.nodup_flatMap]
  refine ⟨fun u _ => ?_, List.nodup_range.imp fun {u x} hne e hu hx => ?_⟩
  · exact ((List.nodup_range' 1).filter _).map fun v w he => (Prod.mk.inj he).2
  · obtain ⟨v, -, rfl⟩ := List.mem_map.mp hu
    obtain ⟨w, -, he⟩ := List.mem_map.mp hx
    exact hne (Prod.mk.inj he).1.symm

/-- The entries that are set, in increasing order. -/
def setEntries (g : Graph) : List Nat :=
  (List.range (triangle g.size)).filter (g.table.getD · false)

theorem edgeCount_eq_length_setEntries (g : Graph) : g.edgeCount = g.setEntries.length := by
  have hlist : g.table.toList = (List.range (triangle g.size)).map (g.table.getD · false) := by
    refine List.ext_getElem (by simp [g.table_size]) fun i hi _ => ?_
    have hlt : i < g.table.size := by simpa using hi
    simp [Array.getD, hlt]
  rw [edgeCount, ← Array.count_toList, hlist, setEntries, ← List.countP_eq_length_filter,
    List.count_eq_countP, List.countP_map]
  congr
  funext i
  simp

/-- The entries that are set are those of the listed edges. -/
theorem setEntries_perm (g : Graph) : g.setEntries.Perm (g.edges.map fun e => entry e.1 e.2) := by
  have hedges : (g.edges.map fun e => entry e.1 e.2).Nodup := by
    refine g.nodup_edges.map_on fun e he e' he' hee => ?_
    have hle := (mem_edges.mp he).1
    have hle' := (mem_edges.mp he').1
    have := entry_inj hee
    exact Prod.ext (by omega) (by omega)
  refine (List.perm_ext_iff_of_nodup (List.nodup_range.filter _) hedges).mpr fun i => ?_
  simp only [List.mem_filter, List.mem_range, List.mem_map, Prod.exists, mem_edges]
  constructor
  · rintro ⟨hi, hset⟩
    obtain ⟨u, v, huv, -, rfl⟩ := exists_entry hi
    exact ⟨u, v, ⟨huv, hset⟩, rfl⟩
  · rintro ⟨u, v, ⟨-, hedge⟩, rfl⟩
    have := lt_of_hasEdge hedge
    exact ⟨entry_lt this.1 this.2, hedge⟩

/-- Counting the entries that are set counts the listed edges. -/
theorem edgeCount_eq_length_edges (g : Graph) : g.edgeCount = g.edges.length := by
  rw [edgeCount_eq_length_setEntries, g.setEntries_perm.length_eq, List.length_map]

theorem edgeCount_le (g : Graph) : g.edgeCount ≤ triangle g.size :=
  g.table_size ▸ Array.count_le_size

end AgentPaths.Graph
