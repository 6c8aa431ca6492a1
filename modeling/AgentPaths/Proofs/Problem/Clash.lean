import AgentPaths.Problem.Reader
import AgentPaths.Proofs.Problem.Validation

/-!
Clashes between agents. When all agents travel inside the graph, the defect that is found is the
first clash: the least number of an agent that starts or finishes where an earlier one does, with
the only earlier agent that does.
-/
namespace AgentPaths

/-- The first clash, and the defect that it is. A shared initial node counts before a shared
goal. -/
inductive FirstClash (agents : List Agent) (second : Nat) : Defect → Prop
  | initial {b : Agent} {first : Nat} : IsLeast {i | Clashes agents i} second →
      agents[second]? = some b → first < second →
      (∀ j a, j < second → agents[j]? = some a → (a.initial = b.initial ↔ j = first)) →
      FirstClash agents second (.sharedInitial b.initial first second)
  | goal {b : Agent} {first : Nat} : IsLeast {i | Clashes agents i} second →
      agents[second]? = some b → first < second →
      (∀ j a, j < second → agents[j]? = some a → a.initial ≠ b.initial) →
      (∀ j a, j < second → agents[j]? = some a → (a.goal = b.goal ↔ j = first)) →
      FirstClash agents second (.sharedGoal b.goal first second)

variable {n : Nat} {agents : List Agent} {d : Defect}

namespace FirstClash

variable {second : Nat}

theorem clashes (h : FirstClash agents second d) : Clashes agents second := by
  cases h with
  | initial hleast => exact hleast.1
  | goal hleast => exact hleast.1

theorem culprit (h : FirstClash agents second d) : d.culprit? = some second := by
  cases h <;> rfl

theorem lt_length (h : FirstClash agents second d) : second < agents.length := by
  cases h with
  | initial _ hb => exact (List.getElem?_eq_some_iff.mp hb).1
  | goal _ hb => exact (List.getElem?_eq_some_iff.mp hb).1

end FirstClash

/-- The first defect of agents inside the graph is their first clash. -/
theorem firstDefect?_eq_some_iff (hagents : ∀ a ∈ agents, a.initial < n ∧ a.goal < n) :
    firstDefect? n [] agents = some d ↔ ∃ second, FirstClash agents second d := by
  have hinside {i : Nat} {a : Agent} (ha : agents[i]? = some a) : a.initial < n ∧ a.goal < n :=
    hagents a (List.mem_of_getElem? ha)
  have hamiss : {i | Amiss n agents i} = {i | Clashes agents i} := by
    refine Set.ext fun i => or_iff_right ?_
    rintro ⟨a, ha, hout⟩
    have := hinside ha
    omega
  rw [firstDefect?_eq_some_iff_refusedFor (Admissible.nil n), List.nil_append, hamiss]
  refine exists_congr fun second => ?_
  constructor
  · rintro ⟨hleast, hrefused⟩
    cases hrefused with
    | initialOutside ha hout => exact absurd (hinside ha).1 (Nat.not_lt.mpr hout)
    | goalOutside ha _ hout => exact absurd (hinside ha).2 (Nat.not_lt.mpr hout)
    | initialTaken ha _ _ howner => exact .initial hleast ha howner.1 howner.2
    | goalTaken ha _ _ hapart howner => exact .goal hleast ha howner.1 hapart howner.2
  · intro hclash
    cases hclash with
    | initial hleast hb hfirst honly =>
      exact ⟨hleast, .initialTaken hb (hinside hb).1 (hinside hb).2 ⟨hfirst, honly⟩⟩
    | goal hleast hb hfirst hapart honly =>
      exact ⟨hleast, .goalTaken hb (hinside hb).1 (hinside hb).2 hapart ⟨hfirst, honly⟩⟩

end AgentPaths
