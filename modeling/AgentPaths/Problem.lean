import AgentPaths.Graph

/-!
Instances: a graph, and agents that each travel from one of its nodes to another. A `Problem`
carries the proof that its agents are admissible; `Problem.ofAgents` names the first defect of the
others.
-/
namespace AgentPaths

structure Agent where
  initial : Nat
  goal : Nat
deriving DecidableEq

/-- Agents on a graph of `n` nodes that all start and finish inside it, each pair of them apart. -/
structure Admissible (n : Nat) (agents : List Agent) : Prop where
  inside : ∀ a ∈ agents, a.initial < n ∧ a.goal < n
  initials : (agents.map Agent.initial).Nodup
  goals : (agents.map Agent.goal).Nodup

def Agent.defect? (n : Nat) (before : List Agent) (a : Agent) : Option Defect :=
  if n ≤ a.initial then some (.nodeOutOfRange a.initial n)
  else if n ≤ a.goal then some (.nodeOutOfRange a.goal n)
  else match before.findIdx? (·.initial = a.initial) with
    | some first => some (.sharedInitial a.initial first before.length)
    | none => match before.findIdx? (·.goal = a.goal) with
      | some first => some (.sharedGoal a.goal first before.length)
      | none => none

def firstDefect? (n : Nat) (before : List Agent) : List Agent → Option Defect
  | [] => none
  | a :: rest => match a.defect? n before with
    | some d => some d
    | none => firstDefect? n (before ++ [a]) rest

theorem Admissible.nil (n : Nat) : Admissible n [] :=
  ⟨fun _ h => absurd h List.not_mem_nil, List.nodup_nil, List.nodup_nil⟩

theorem admissible_concat {n : Nat} {before : List Agent} {a : Agent} :
    Admissible n (before ++ [a]) ↔ Admissible n before ∧ a.initial < n ∧ a.goal < n ∧
      (∀ b ∈ before, b.initial ≠ a.initial) ∧ ∀ b ∈ before, b.goal ≠ a.goal := by
  constructor
  · rintro ⟨inside, initials, goals⟩
    simp only [List.map_append, List.map_cons, List.map_nil, List.nodup_append, List.mem_map,
      List.mem_singleton] at initials goals
    have ha := inside a (by simp)
    exact ⟨⟨fun b hb => inside b (by simp [hb]), initials.1, goals.1⟩, ha.1, ha.2,
      fun b hb => initials.2.2 _ ⟨b, hb, rfl⟩ _ rfl, fun b hb => goals.2.2 _ ⟨b, hb, rfl⟩ _ rfl⟩
  · rintro ⟨⟨inside, initials, goals⟩, hi, hg, hinitial, hgoal⟩
    refine ⟨fun b hb => ?_, ?_, ?_⟩
    · rcases List.mem_append.mp hb with hb | hb
      · exact inside b hb
      · rw [List.mem_singleton.mp hb]
        exact ⟨hi, hg⟩
    · simp only [List.map_append, List.map_cons, List.map_nil, List.nodup_append, List.mem_map,
        List.mem_singleton]
      refine ⟨initials, by simp, ?_⟩
      rintro _ ⟨b, hb, rfl⟩ _ rfl
      exact hinitial b hb
    · simp only [List.map_append, List.map_cons, List.map_nil, List.nodup_append, List.mem_map,
        List.mem_singleton]
      refine ⟨goals, by simp, ?_⟩
      rintro _ ⟨b, hb, rfl⟩ _ rfl
      exact hgoal b hb

theorem Agent.defect?_eq_none {n : Nat} {before : List Agent} {a : Agent} :
    a.defect? n before = none ↔ a.initial < n ∧ a.goal < n ∧
      (∀ b ∈ before, b.initial ≠ a.initial) ∧ ∀ b ∈ before, b.goal ≠ a.goal := by
  unfold Agent.defect?
  split
  next h => simp [Nat.not_lt.mpr h]
  next h =>
    split
    next hg => simp [Nat.not_lt.mpr hg]
    next hg =>
      split
      next first hf =>
        obtain ⟨hlt, hp, _⟩ := List.findIdx?_eq_some_iff_getElem.mp hf
        simp only [reduceCtorEq, false_iff]
        intro hall
        exact hall.2.2.1 _ (List.getElem_mem hlt) (of_decide_eq_true hp)
      next hf =>
        split
        next first hf' =>
          obtain ⟨hlt, hp, _⟩ := List.findIdx?_eq_some_iff_getElem.mp hf'
          simp only [reduceCtorEq, false_iff]
          intro hall
          exact hall.2.2.2 _ (List.getElem_mem hlt) (of_decide_eq_true hp)
        next hf' =>
          rw [List.findIdx?_eq_none_iff] at hf hf'
          simp only [decide_eq_false_iff_not] at hf hf'
          simp only [true_iff]
          exact ⟨by omega, by omega, hf, hf'⟩

theorem firstDefect?_eq_none {n : Nat} {before agents : List Agent} (hb : Admissible n before) :
    firstDefect? n before agents = none ↔ Admissible n (before ++ agents) := by
  induction agents generalizing before with
  | nil => simpa [firstDefect?] using hb
  | cons a rest ih =>
    have hsplit : before ++ a :: rest = before ++ [a] ++ rest := by simp
    rw [firstDefect?, hsplit]
    split
    next d hd =>
      simp only [reduceCtorEq, false_iff]
      intro hall
      have hnone := Agent.defect?_eq_none.mpr (admissible_concat.mp
        (⟨fun b hm => hall.inside b (List.mem_append_left _ hm),
          (List.nodup_append.mp (List.map_append ▸ hall.initials)).1,
          (List.nodup_append.mp (List.map_append ▸ hall.goals)).1⟩ :
          Admissible n (before ++ [a]))).2
      rw [hd] at hnone
      exact absurd hnone (by simp)
    next hd => exact ih (admissible_concat.mpr ⟨hb, Agent.defect?_eq_none.mp hd⟩)

structure Problem where
  graph : Graph
  agents : List Agent
  admissible : Admissible graph.size agents
deriving DecidableEq

/-- The problem of these agents on this graph, unless they have a defect. -/
def Problem.ofAgents (g : Graph) (agents : List Agent) : Except Defect Problem :=
  match h : firstDefect? g.size [] agents with
  | some d => .error d
  | none => .ok ⟨g, agents, (firstDefect?_eq_none (Admissible.nil _)).mp h⟩

end AgentPaths
