import AgentPaths.Proofs.Encoding.Pruning
import AgentPaths.Proofs.Encoding.WellFormed
import AgentPaths.Proofs.Graph.Table
import Mathlib.Data.Set.Card
import Mathlib.Tactic.Ring

/-!
How many variables and clauses the formula of a problem has, and which variable a key gets. Without
windows the keys are numbered like the digits of agent, time and node, and each of the five families
of clauses has its closed form; with windows a key is numbered by counting the accessible keys
before it.
-/
namespace AgentPaths

/-- An entry of a list that is put together from parts of one length. -/
theorem getElem?_flatMap_range {β : Type} {n len : Nat} {f : Nat → List β}
    (hf : ∀ i, (f i).length = len) {i j : Nat} (hi : i < n) (hj : j < len) :
    ((List.range n).flatMap f)[i * len + j]? = (f i)[j]? := by
  induction n with
  | zero => omega
  | succ n ih =>
    have hparts : ((List.range n).flatMap f).length = n * len := by simp [List.length_flatMap, hf]
    rw [List.range_succ, List.flatMap_append, List.flatMap_singleton]
    by_cases hlt : i < n
    · have hwithin : i * len + j < n * len := KeyTable.mul_add_lt hlt hj
      rw [List.getElem?_append_left (hparts ▸ hwithin), ih hlt]
    · obtain rfl : i = n := by omega
      rw [List.getElem?_append_right (by omega), hparts, Nat.add_sub_cancel_left]

namespace Graph

/-- The edges that join two different nodes. -/
def properEdges (g : Graph) : List (Nat × Nat) := g.edges.filter fun e => e.1 ≠ e.2

theorem mem_properEdges {g : Graph} {u v : Nat} :
    (u, v) ∈ g.properEdges ↔ u < v ∧ g.hasEdge u v = true := by
  simp only [properEdges, List.mem_filter, mem_edges, decide_eq_true_eq]
  rw [and_right_comm, ← Nat.lt_iff_le_and_ne]

theorem nodup_properEdges (g : Graph) : g.properEdges.Nodup := g.nodup_edges.filter _

end Graph

theorem Key.Before.asymm {k l : Key} (h : k.Before l) : ¬l.Before k := by
  unfold Key.Before at *
  omega

/-- In a list that is ordered by `Before`, the place of a key is the number of keys before it. -/
theorem encard_before {ks : List Key} (hks : ks.Pairwise Key.Before) {i : Nat} {k : Key}
    (hi : ks[i]? = some k) : {l | l ∈ ks ∧ l.Before k}.encard = i := by
  obtain ⟨hlt, rfl⟩ := List.getElem?_eq_some_iff.mp hi
  have hordered := List.pairwise_iff_getElem.mp hks
  have hbefore : {l | l ∈ ks ∧ l.Before ks[i]} = ↑(ks.take i).toFinset := by
    ext l
    simp only [Set.mem_ofPred_eq, List.coe_toFinset, List.mem_take_iff_getElem]
    constructor
    · rintro ⟨hl, hlk⟩
      obtain ⟨j, hj, rfl⟩ := List.mem_iff_getElem.mp hl
      refine ⟨j, ?_, rfl⟩
      rcases Nat.lt_trichotomy j i with hji | rfl | hij
      · omega
      · exact absurd hlk hlk.asymm
      · exact absurd hlk (hordered i j hlt hj hij).asymm
    · rintro ⟨j, hj, rfl⟩
      exact ⟨List.getElem_mem _, hordered j i (by omega) hlt (by omega)⟩
  have hnodup : ks.Nodup := hks.imp fun hkl he => by
    subst he
    exact hkl.asymm hkl
  rw [hbefore, Set.encard_coe_eq_coe_finsetCard,
    List.toFinset_card_of_nodup (hnodup.sublist (List.take_sublist i ks)),
    List.length_take_of_le (Nat.le_of_lt hlt)]

namespace Rule

/-- A rule whose keys all have a literal has a clause. -/
theorem isSome_clause? {x : Literals} {r : Rule}
    (h : ∀ l ∈ r, (x l.key.time l.key.agent l.key.node).isSome) : (r.clause? x).isSome := by
  induction r with
  | nil => rfl
  | cons l rest ih =>
    obtain ⟨hl, hrest⟩ := List.forall_mem_cons.mp h
    obtain ⟨y, hy⟩ := Option.isSome_iff_exists.mp hl
    rw [clause?, hy, Option.isSome_map]
    exact ih hrest

end Rule

/-- What a window that has ticked far enough calls accessible. -/
theorem Window.accessible_eq_true {g : Graph} {w : Window g} {v t m : Nat} (hm : m < w.ticks) :
    w.accessible v t m = .ok true ↔ t ≤ m ∧ v < g.size ∧ w.admits v t m = true := by
  rw [accessible]
  by_cases ht : t ≤ m
  · by_cases hv : v < g.size
    · simp [Nat.not_lt.mpr ht, Nat.not_le.mpr hm, Nat.not_le.mpr hv, ht, hv]
    · simp [Nat.not_lt.mpr ht, Nat.not_le.mpr hm, Nat.not_lt.mp hv, hv]
  · simp [Nat.not_le.mp ht, ht]

namespace Formula

variable {f : Formula} {k : Key} {i : Nat}

theorem find?_eq_positive : f.find? k = .ok (some (.positive i)) ↔ f.table.find? k = some i := by
  unfold Formula.find?
  by_cases hk : f.table.Covers k
  · simp [hk, Literal.positive]
  · simp [hk, KeyTable.find?]

theorem contains_eq_true : f.contains k = .ok true ↔ ∃ i, f.table.find? k = some i := by
  unfold contains Formula.find?
  by_cases hk : f.table.Covers k
  · simp [hk, Except.map, Option.isSome_iff_exists]
  · simp [hk, Except.map, KeyTable.find?]

end Formula

namespace Encoding

variable {p : Problem} {m : Nat} {ws : List (Window p.graph)} {f : Formula}

theorem mem_arcs {g : Graph} {u v : Nat} : (v, u) ∈ arcs g ↔ g.hasEdge v u = true ∧ u ≠ v := by
  simp only [arcs, List.mem_flatMap, List.mem_range, List.mem_map, mem_exitsFrom]
  constructor
  · rintro ⟨_, _, _, hu, he⟩
    cases he
    exact hu
  · intro hu
    exact ⟨v, (Graph.lt_of_hasEdge hu.1).1, u, hu, rfl⟩

/-- Every proper edge is crossed in two directions. -/
theorem length_arcs (g : Graph) : (arcs g).length = 2 * g.properEdges.length := by
  have hswap {u v : Nat} : (v, u) ∈ g.properEdges.map Prod.swap ↔ (u, v) ∈ g.properEdges := by
    simp
  have hboth : (g.properEdges ++ g.properEdges.map Prod.swap).Nodup := by
    refine List.nodup_append.mpr
      ⟨g.nodup_properEdges, g.nodup_properEdges.map Prod.swap_injective, ?_⟩
    rintro ⟨u, v⟩ huv _ hvu rfl
    have hlt := (Graph.mem_properEdges.mp huv).1
    have hgt := (Graph.mem_properEdges.mp (hswap.mp hvu)).1
    omega
  have hperm : (arcs g).Perm (g.properEdges ++ g.properEdges.map Prod.swap) := by
    rw [List.perm_ext_iff_of_nodup (nodup_arcs g) hboth]
    rintro ⟨v, u⟩
    rw [mem_arcs, List.mem_append, hswap, Graph.mem_properEdges, Graph.mem_properEdges,
      g.hasEdge_comm u v, ← or_and_right, and_comm, and_congr_left_iff]
    omega
  rw [hperm.length_eq, List.length_append, List.length_map]
  omega

theorem length_moveRules :
    (moveRules p m).length = p.agents.length * m * p.graph.size := by
  simp [moveRules_eq_map, List.length_product, Nat.mul_assoc]

theorem length_collisionRules : (collisionRules p m).length =
    (m + 1) * p.graph.size * (p.agents.length * (p.agents.length - 1) / 2) := by
  simp [collisionRules_eq_map, List.length_product, length_pairs]

theorem length_occupancyRules : (occupancyRules p m).length =
    p.agents.length * (m + 1) * (p.graph.size * (p.graph.size - 1) / 2) := by
  simp [occupancyRules_eq_map, List.length_product, length_pairs]

/-- The two directions of an edge make up for counting each pair of agents once. -/
theorem length_swapRules : (swapRules p m).length =
    p.agents.length * (p.agents.length - 1) * m * p.graph.properEdges.length := by
  have hpairs := Nat.div_mul_cancel (Nat.two_dvd_mul_sub_one p.agents.length)
  simp only [swapRules_eq_map, List.length_map, List.length_product, length_pairs,
    List.length_range, length_arcs]
  calc p.agents.length * (p.agents.length - 1) / 2 * (m * (2 * p.graph.properEdges.length))
      = p.agents.length * (p.agents.length - 1) / 2 * 2 * m * p.graph.properEdges.length := by ring
    _ = _ := by rw [hpairs]

theorem length_placementRules (t : Nat) (target : Agent → Nat) :
    (placementRules p t target).length = p.agents.length * p.graph.size := by
  simp [placementRules_eq_map, List.length_product]

/-- The number of moves, collisions, occupied nodes, swaps and ends of journeys that have a clause;
`edges` counts those that are not loops. -/
def clauseTotal (m agents nodes edges : Nat) : Nat :=
  agents * m * nodes + (m + 1) * nodes * (agents * (agents - 1) / 2) +
    agents * (m + 1) * (nodes * (nodes - 1) / 2) + agents * (agents - 1) * m * edges +
    2 * agents * nodes

theorem length_rules : (rules p m).length =
    clauseTotal m p.agents.length p.graph.size p.graph.properEdges.length := by
  simp only [rules, List.length_append, length_moveRules, length_collisionRules,
    length_occupancyRules, length_swapRules, length_placementRules, clauseTotal]
  ring

/-- Without windows no rule loses its clause. -/
theorem size_clauses_unpruned [Memory] (hb : build p m none = .ok (.built f)) :
    f.clauses.size = (rules p m).length := by
  rw [← Array.length_toList, clauses_of_built prepared_none hb, List.filterMap_length_eq_length]
  intro r hr
  apply Rule.isSome_clause?
  intro l hl
  have hcovers := (covers_of_built prepared_none hb).mpr (key_of_mem_rules r hr l hl)
  have hknown := lacks_unpruned hb hcovers
  rw [Formula.lacks, Option.isNone_eq_false_iff] at hknown
  rwa [KeyTable.literals, Option.isSome_map]

theorem length_agentKeys_true (m nodes a : Nat) :
    (agentKeys (fun _ _ _ => true) m nodes a).length = (m + 1) * nodes := by
  simp [agentKeys, List.length_flatMap]

theorem length_admittedKeys_true (m agents nodes : Nat) :
    (admittedKeys (fun _ _ _ => true) m agents nodes).length = agents * (m + 1) * nodes := by
  simp [admittedKeys, List.length_flatMap, length_agentKeys_true, Nat.mul_assoc]

/-- The place of a key when all are admitted. -/
theorem getElem?_admittedKeys_true {agents nodes t a v : Nat} (ht : t ≤ m) (ha : a < agents)
    (hv : v < nodes) : (admittedKeys (fun _ _ _ => true) m agents nodes)[
      a * (m + 1) * nodes + t * nodes + v]? = some ⟨t, a, v⟩ := by
  have hrow (t : Nat) : (((List.range nodes).filter fun _ => true).map
      fun v => (⟨t, a, v⟩ : Key)).length = nodes := by simp
  have hwithin : t * nodes + v < (m + 1) * nodes :=
    KeyTable.mul_add_lt (Nat.lt_succ_of_le ht) hv
  rw [admittedKeys, Nat.mul_assoc, Nat.add_assoc,
    getElem?_flatMap_range (length_agentKeys_true m nodes) ha hwithin, agentKeys,
    getElem?_flatMap_range hrow (Nat.lt_succ_of_le ht) hv]
  simp [hv]

variable (p m f) in
/-- The formula that is made without windows, by its numbers. -/
structure Unpruned : Prop where
  find : ∀ t a v, t ≤ m → a < p.agents.length → v < p.graph.size →
    f.find? ⟨t, a, v⟩ = .ok (some (.positive (a * (m + 1) * p.graph.size + t * p.graph.size + v)))
  varCount : f.varCount = p.agents.length * (m + 1) * p.graph.size
  clauses : f.clauses.size =
    clauseTotal m p.agents.length p.graph.size p.graph.properEdges.length

/-- Every formula that is made without windows has these numbers. -/
theorem unpruned_of_built [Memory] (hb : build p m none = .ok (.built f)) : Unpruned p m f := by
  have hlists := lists_of_built prepared_none hb
  constructor
  · intro t a v ht ha hv
    exact Formula.find?_eq_positive.mpr
      ((hlists.find _ _).mpr (getElem?_admittedKeys_true ht ha hv))
  · rw [Formula.varCount, hlists.count, allowed, length_admittedKeys_true]
  · rw [size_clauses_unpruned hb, length_rules]

variable (m ws) in
/-- The keys whose node is accessible to the agent at the time. -/
def accessibleKeys : Set Key :=
  {k | ∃ w, ws[k.agent]? = some w ∧ w.accessible k.node k.time m = .ok true}

theorem WindowsPast.mem_accessibleKeys (h : WindowsPast p m ws) {k : Key} :
    k ∈ accessibleKeys m ws ↔
      k ∈ admittedKeys (admission m ws.toArray) m p.agents.length p.graph.size := by
  rw [mem_admittedKeys, accessibleKeys, Set.mem_ofPred_eq]
  simp only [admission, List.getElem?_toArray]
  cases hw : ws[k.agent]? with
  | none => simp
  | some w =>
    have hlt : k.agent < p.agents.length := h.perAgent ▸ (List.getElem?_eq_some_iff.mp hw).1
    simp [Window.accessible_eq_true (h.past w (List.mem_of_getElem? hw)), hlt]

variable (m ws f) in
/-- The formula that is made with windows: the keys that have variables, and their numbers. -/
structure Pruned : Prop where
  contains : ∀ k, f.contains k = .ok true ↔ k ∈ accessibleKeys m ws
  find : ∀ k i, f.find? k = .ok (some (.positive i)) ↔
    k ∈ accessibleKeys m ws ∧ {l ∈ accessibleKeys m ws | l.Before k}.encard = i

theorem pruned_of_built [Memory] (h : WindowsPast p m ws)
    (hb : build p m (some ws) = .ok (.built f)) : Pruned m ws f := by
  have hlists := lists_of_built h.prepared hb
  have hsame : {k | k ∈ admittedKeys (admission m ws.toArray) m p.agents.length p.graph.size} =
      accessibleKeys m ws := Set.ext fun k => h.mem_accessibleKeys.symm
  have hcount {k : Key} {i : Nat} (hi : f.table.find? k = some i) :
      {l ∈ accessibleKeys m ws | l.Before k}.encard = i := by
    rw [← hsame]
    exact encard_before pairwise_admittedKeys ((hlists.find k i).mp hi)
  have hknown {k : Key} : k ∈ accessibleKeys m ws ↔ ∃ i, f.table.find? k = some i :=
    h.mem_accessibleKeys.trans hlists.mem_iff
  constructor
  · intro k
    rw [hknown, Formula.contains_eq_true]
  · intro k i
    rw [Formula.find?_eq_positive, hknown]
    constructor
    · intro hi
      exact ⟨⟨i, hi⟩, hcount hi⟩
    · rintro ⟨⟨j, hj⟩, hi⟩
      rw [hcount hj, Nat.cast_inj] at hi
      exact hi ▸ hj

/-- Where the table can be laid out there is a formula without windows, with a variable for every
key and a clause for every rule; with windows the accessible keys have variables, and each is
numbered by the accessible keys before it. -/
theorem numbering_exact [Memory] (p : Problem) (m : Nat) :
    (KeyTable.Fits m p.agents.length p.graph.size →
      ∃ f, build p m none = .ok (.built f) ∧ Unpruned p m f) ∧
    (∀ ws f, WindowsPast p m ws → build p m (some ws) = .ok (.built f) → Pruned m ws f) ∧
    ∀ misuse, KeyTable.lack? m p.agents.length p.graph.size = some misuse →
      ∀ windows, Prepared p m windows → build p m windows = .error misuse := by
  refine ⟨?_, fun ws f => pruned_of_built, fun misuse hlack windows h => build_of_lack h hlack⟩
  intro hfits
  have hb := (build_eq_built_iff (p := p) prepared_none).mpr
    ⟨hfits, rfl, fun hne => absurd rfl hne⟩
  exact ⟨_, hb, unpruned_of_built hb⟩

section

attribute [local instance] Memory.ample

theorem numbering_exact_convoy : KeyTable.Fits 2 2 3 ∧
    (∃ f, build convoy 2 none = .ok (.built f) ∧ Unpruned convoy 2 f) ∧
    WindowsPast convoy 2 convoyWindows ∧
    build convoy 2 (some convoyWindows) = .ok (.built convoyFormula) ∧
    Pruned 2 convoyWindows convoyFormula ∧
    KeyTable.lack? (addressBound - 1) 0 0 = some .tooLarge ∧
    build deserted (addressBound - 1) none = .error .tooLarge := by
  have hfits : KeyTable.Fits 2 2 3 := by decide
  have hlack : KeyTable.lack? (addressBound - 1) 0 0 = some .tooLarge := by decide
  obtain ⟨hunpruned, hpruned, -⟩ := numbering_exact convoy 2
  exact ⟨hfits, hunpruned hfits, windowsPast_convoy, build_convoy,
    hpruned _ _ windowsPast_convoy build_convoy, hlack,
    (numbering_exact deserted (addressBound - 1)).2.2 _ hlack none prepared_none⟩

/-- Without agents and nodes there would be no variable and no clause, however long the journey; but
the formula for very many steps does not exist. -/
theorem deserted_not_numbered : ¬∃ f, build deserted (addressBound - 1) none = .ok (.built f) ∧
    Unpruned deserted (addressBound - 1) f := by
  rintro ⟨f, hf, -⟩
  have hlack : KeyTable.lack? (addressBound - 1) 0 0 = some .tooLarge := by decide
  cases (build_of_lack prepared_none hlack).symm.trans hf

end

end Encoding

end AgentPaths
