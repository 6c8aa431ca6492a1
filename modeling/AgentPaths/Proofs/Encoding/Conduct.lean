import AgentPaths.Proofs.Encoding.Rules

/-!
What the rules say. They hold of a placing of the agents exactly when it keeps to `Conduct`, in
which no one is said to be anywhere after the start. That every agent is on one node at each time
follows: the start puts it on one, each move takes it on to some node, and it is never on two.
-/
namespace AgentPaths

open KeyLiteral (here away)

/-- What the encoding demands of a placing of the agents, family by family. -/
structure Conduct (p : Problem) (m : Nat) (stands : Key → Bool) : Prop where
  moves : ∀ a < p.agents.length, ∀ t < m, ∀ v < p.graph.size, stands ⟨t, a, v⟩ = true →
    ∃ u, (u = v ∨ p.graph.hasEdge v u = true) ∧ stands ⟨t + 1, a, u⟩ = true
  apart : ∀ t ≤ m, ∀ v < p.graph.size, ∀ a b, a < b → b < p.agents.length →
    stands ⟨t, a, v⟩ = true → stands ⟨t, b, v⟩ = false
  single : ∀ a < p.agents.length, ∀ t ≤ m, ∀ u v, u < v → v < p.graph.size →
    stands ⟨t, a, u⟩ = true → stands ⟨t, a, v⟩ = false
  noSwap : ∀ a b, a < b → b < p.agents.length → ∀ t < m, ∀ v u, u ≠ v →
    p.graph.hasEdge v u = true → stands ⟨t, a, v⟩ = true → stands ⟨t + 1, a, u⟩ = true →
    stands ⟨t, b, u⟩ = true → stands ⟨t + 1, b, v⟩ = false
  starts : ∀ i agent, p.agents[i]? = some agent → ∀ v < p.graph.size,
    stands ⟨0, i, v⟩ = (v == agent.initial)
  finishes : ∀ i agent, p.agents[i]? = some agent → ∀ v < p.graph.size,
    stands ⟨m, i, v⟩ = (v == agent.goal)

namespace Rule

variable {stands : Key → Bool} {t a v : Nat} {r : Rule}

theorem holds_nil : holds stands [] = false := rfl

theorem holds_away_cons :
    holds stands (away t a v :: r) = true ↔ (stands ⟨t, a, v⟩ = true → holds stands r = true) := by
  simp only [holds, List.any_cons, away]
  cases stands ⟨t, a, v⟩ <;> simp

theorem holds_map_here {vs : List Nat} :
    holds stands (vs.map (here t a)) = true ↔ ∃ v ∈ vs, stands ⟨t, a, v⟩ = true := by
  simp [holds, here]

end Rule

namespace Encoding

variable {p : Problem} {m : Nat} {stands : Key → Bool}

theorem mem_exitsFrom {g : Graph} {u v : Nat} :
    u ∈ exitsFrom g v ↔ g.hasEdge v u = true ∧ u ≠ v := by
  simp [exitsFrom]

theorem moveRules_hold : (∀ r ∈ moveRules p m, r.holds stands = true) ↔
    ∀ a < p.agents.length, ∀ t < m, ∀ v < p.graph.size, stands ⟨t, a, v⟩ = true →
      ∃ u, (u = v ∨ p.graph.hasEdge v u = true) ∧ stands ⟨t + 1, a, u⟩ = true := by
  simp only [moveRules, List.forall_mem_flatMap, List.forall_mem_map, List.mem_range,
    Rule.holds_away_cons, Rule.holds_map_here, List.mem_cons, mem_exitsFrom]
  refine forall₂_congr fun a _ => forall₂_congr fun t _ => forall₂_congr fun v _ =>
    imp_congr_right fun _ => exists_congr fun u => and_congr_left fun _ => ?_
  by_cases hu : u = v <;> simp [hu]

theorem collisionRules_hold : (∀ r ∈ collisionRules p m, r.holds stands = true) ↔
    ∀ t ≤ m, ∀ v < p.graph.size, ∀ a b, a < b → b < p.agents.length →
      stands ⟨t, a, v⟩ = true → stands ⟨t, b, v⟩ = false := by
  simp only [collisionRules, List.forall_mem_flatMap, List.forall_mem_map, List.mem_range,
    Prod.forall, mem_pairs_range, Rule.holds_away_cons, Rule.holds_nil, Nat.lt_succ_iff, and_imp,
    Bool.false_eq_true, imp_false, Bool.not_eq_true]

theorem occupancyRules_hold : (∀ r ∈ occupancyRules p m, r.holds stands = true) ↔
    ∀ a < p.agents.length, ∀ t ≤ m, ∀ u v, u < v → v < p.graph.size →
      stands ⟨t, a, u⟩ = true → stands ⟨t, a, v⟩ = false := by
  simp only [occupancyRules, List.forall_mem_flatMap, List.forall_mem_map, List.mem_range,
    Prod.forall, mem_pairs_range, Rule.holds_away_cons, Rule.holds_nil, Nat.lt_succ_iff, and_imp,
    Bool.false_eq_true, imp_false, Bool.not_eq_true]

theorem swapRules_hold : (∀ r ∈ swapRules p m, r.holds stands = true) ↔
    ∀ a b, a < b → b < p.agents.length → ∀ t < m, ∀ v u, u ≠ v → p.graph.hasEdge v u = true →
      stands ⟨t, a, v⟩ = true → stands ⟨t + 1, a, u⟩ = true →
      stands ⟨t, b, u⟩ = true → stands ⟨t + 1, b, v⟩ = false := by
  simp only [swapRules, List.forall_mem_flatMap, List.forall_mem_map, List.mem_range,
    Prod.forall, mem_pairs_range, Rule.holds_away_cons, Rule.holds_nil, and_imp, mem_exitsFrom,
    Bool.false_eq_true, imp_false, Bool.not_eq_true]
  constructor
  · intro h a b hab hb t ht v u hne he
    exact h a b hab hb t ht v (Graph.lt_of_hasEdge he).1 u he hne
  · intro h a b hab hb t ht v _ u he hne
    exact h a b hab hb t ht v u hne he

theorem placementRules_hold {t : Nat} {target : Agent → Nat} :
    (∀ r ∈ placementRules p t target, r.holds stands = true) ↔
      ∀ i agent, p.agents[i]? = some agent → ∀ v < p.graph.size,
        stands ⟨t, i, v⟩ = (v == target agent) := by
  simp only [placementRules, List.forall_mem_flatMap, List.forall_mem_map, List.mem_range,
    Prod.forall, List.mem_zipIdx_iff_getElem?]
  rw [forall_comm]
  refine forall₂_congr fun i agent => forall₂_congr fun hi v => forall_congr' fun _ => ?_
  simp only [Rule.holds, List.any_cons, List.any_nil, Bool.or_false]
  cases stands ⟨t, i, v⟩ <;> cases hv : v == target agent <;> simp_all

/-- The rules hold of a placing exactly when it keeps to the conduct. -/
theorem rules_hold_iff : (∀ r ∈ rules p m, r.holds stands = true) ↔ Conduct p m stands := by
  simp only [rules, List.forall_mem_append, moveRules_hold, collisionRules_hold,
    occupancyRules_hold, swapRules_hold, placementRules_hold]
  constructor
  · intro h
    obtain ⟨⟨⟨⟨hmoves, hapart⟩, hsingle⟩, hswap⟩, hstarts, hfinishes⟩ := h
    exact ⟨hmoves, hapart, hsingle, hswap, hstarts, hfinishes⟩
  · intro h
    exact ⟨⟨⟨⟨h.moves, h.apart⟩, h.single⟩, h.noSwap⟩, h.starts, h.finishes⟩

end Encoding

/-- Exactly one of the numbers below `n` has the property. -/
theorem filter_range_eq_singleton {n v : Nat} {q : Nat → Bool} (hv : v < n) (hq : q v = true)
    (hone : ∀ u < n, q u = true → u = v) : (List.range n).filter q = [v] := by
  have hcongr : (List.range n).filter q = (List.range n).filter (· == v) :=
    List.filter_congr fun u hu => by
      rw [List.mem_range] at hu
      by_cases huv : u = v
      · simp [huv, hq]
      · have hqu : q u = false := Bool.eq_false_iff.mpr fun hqu => huv (hone u hu hqu)
        simp [hqu, huv]
  rw [hcongr, List.filter_beq, List.nodup_range.count]
  simp [hv]

namespace Conduct

variable {p : Problem} {m : Nat} {stands : Key → Bool}

/-- An agent is somewhere at every time: the start says where, and each move leads on. -/
theorem exists_stands (h : Conduct p m stands) {i t : Nat} {agent : Agent}
    (hi : p.agents[i]? = some agent) (ht : t ≤ m) :
    ∃ v < p.graph.size, stands ⟨t, i, v⟩ = true := by
  have hlt := (List.getElem?_eq_some_iff.mp hi).1
  induction t with
  | zero =>
    have hin := (p.admissible.inside agent (List.mem_of_getElem? hi)).1
    exact ⟨agent.initial, hin, by simp [h.starts i agent hi _ hin]⟩
  | succ t ih =>
    obtain ⟨v, hv, hstands⟩ := ih (by omega)
    obtain ⟨u, hu, hnext⟩ := h.moves i hlt t (by omega) v hv hstands
    rcases hu with rfl | he
    · exact ⟨u, hv, hnext⟩
    · exact ⟨u, (Graph.lt_of_hasEdge he).2, hnext⟩

theorem eq_of_stands (h : Conduct p m stands) {i t u v : Nat} (hi : i < p.agents.length)
    (ht : t ≤ m) (hu : u < p.graph.size) (hv : v < p.graph.size) (hsu : stands ⟨t, i, u⟩ = true)
    (hsv : stands ⟨t, i, v⟩ = true) : u = v := by
  rcases Nat.lt_trichotomy u v with huv | huv | huv
  · simp [h.single i hi t ht u v huv hv hsu] at hsv
  · exact huv
  · simp [h.single i hi t ht v u huv hu hsv] at hsu

/-- An agent is on exactly one node at every time. -/
theorem filter_stands (h : Conduct p m stands) {i t : Nat} {agent : Agent}
    (hi : p.agents[i]? = some agent) (ht : t ≤ m) : ∃ v < p.graph.size,
      (List.range p.graph.size).filter (fun v => stands ⟨t, i, v⟩) = [v] := by
  have hlt := (List.getElem?_eq_some_iff.mp hi).1
  obtain ⟨v, hv, hstands⟩ := h.exists_stands hi ht
  exact ⟨v, hv, filter_range_eq_singleton hv hstands fun u hu hsu =>
    h.eq_of_stands hlt ht hu hv hsu hstands⟩

end Conduct

end AgentPaths
