import AgentPaths.Problem
import Mathlib.Data.List.Nodup
import Mathlib.Data.List.Perm.Subperm
import Mathlib.Order.Bounds.Basic

/-!
What becomes of a graph and a list of agents: the problem of both, or the defect of the first agent
that cannot be admitted. An agent is looked at with those before it, which are apart; so if its node
has been taken, then by exactly one of them.
-/
namespace AgentPaths

/-- Agent number `i` starts or finishes where an earlier agent does. -/
def Clashes (agents : List Agent) (i : Nat) : Prop := ∃ j < i, ∃ a b, agents[j]? = some a ∧
  agents[i]? = some b ∧ (a.initial = b.initial ∨ a.goal = b.goal)

/-- Agent number `i` cannot be admitted: it leaves the graph of `n` nodes, or it clashes. -/
def Amiss (n : Nat) (agents : List Agent) (i : Nat) : Prop :=
  (∃ a, agents[i]? = some a ∧ (n ≤ a.initial ∨ n ≤ a.goal)) ∨ Clashes agents i

/-- Of the agents before number `i`, number `first` has its end `f` on node `x`, and no other. -/
def OnlyOwner (agents : List Agent) (i : Nat) (f : Agent → Nat) (x first : Nat) : Prop :=
  first < i ∧ ∀ j b, j < i → agents[j]? = some b → (f b = x ↔ j = first)

/-- What agent number `i` is refused for. -/
inductive RefusedFor (n : Nat) (agents : List Agent) (i : Nat) : Defect → Prop
  | initialOutside {a : Agent} : agents[i]? = some a → n ≤ a.initial →
      RefusedFor n agents i (.nodeOutOfRange a.initial n)
  | goalOutside {a : Agent} : agents[i]? = some a → a.initial < n → n ≤ a.goal →
      RefusedFor n agents i (.nodeOutOfRange a.goal n)
  | initialTaken {a : Agent} {first : Nat} : agents[i]? = some a → a.initial < n → a.goal < n →
      OnlyOwner agents i Agent.initial a.initial first →
      RefusedFor n agents i (.sharedInitial a.initial first i)
  | goalTaken {a : Agent} {first : Nat} : agents[i]? = some a → a.initial < n → a.goal < n →
      (∀ j b, j < i → agents[j]? = some b → b.initial ≠ a.initial) →
      OnlyOwner agents i Agent.goal a.goal first →
      RefusedFor n agents i (.sharedGoal a.goal first i)

variable {n i : Nat} {before rest agents : List Agent} {a : Agent} {d : Defect}

theorem ne_of_nodup_map {α β : Type} {f : α → β} {l : List α} (h : (l.map f).Nodup) {i j : Nat}
    {a a' : α} (hij : i < j) (ha : l[i]? = some a) (ha' : l[j]? = some a') : f a ≠ f a' := by
  obtain ⟨hi, rfl⟩ := List.getElem?_eq_some_iff.mp ha
  obtain ⟨hj, rfl⟩ := List.getElem?_eq_some_iff.mp ha'
  exact List.pairwise_iff_getElem.mp (List.pairwise_map.mp h) i j hi hj hij

/-- Agents that are apart do not outnumber the nodes. -/
theorem Admissible.length_le (h : Admissible n agents) : agents.length ≤ n := by
  have hsub : agents.map Agent.initial ⊆ List.range n := by
    intro u hu
    obtain ⟨a, ha, rfl⟩ := List.mem_map.mp hu
    exact List.mem_range.mpr (h.inside a ha).1
  have hle := (h.initials.subperm hsub).length_le
  rwa [List.length_map, List.length_range] at hle

theorem Admissible.not_clashes (h : Admissible n agents) (i : Nat) : ¬Clashes agents i := by
  rintro ⟨j, hj, a, b, ha, hb, hshared⟩
  rcases hshared with hshared | hshared
  · exact ne_of_nodup_map h.initials hj ha hb hshared
  · exact ne_of_nodup_map h.goals hj ha hb hshared

theorem Admissible.not_amiss (h : Admissible n agents) (i : Nat) : ¬Amiss n agents i := by
  rintro (⟨a, ha, hout⟩ | hclashes)
  · have hinside := h.inside a (List.mem_of_getElem? ha)
    omega
  · exact h.not_clashes i hclashes

/-- Whether an agent is amiss is seen from the agents up to it. -/
theorem amiss_append_left (hi : i < before.length) :
    Amiss n (before ++ rest) i ↔ Amiss n before i := by
  refine or_congr (by rw [List.getElem?_append_left hi]) (exists_congr fun j => ?_)
  refine and_congr_right fun hj => ?_
  rw [List.getElem?_append_left hi, List.getElem?_append_left (Nat.lt_trans hj hi)]

theorem OnlyOwner.exists_owner {f : Agent → Nat} {x first : Nat}
    (h : OnlyOwner agents i f x first) (hi : agents[i]? = some a) :
    ∃ b, agents[first]? = some b ∧ f b = x := by
  have hlt := Nat.lt_trans h.1 (List.getElem?_eq_some_iff.mp hi).1
  have hfirst := List.getElem?_eq_getElem hlt
  exact ⟨_, hfirst, (h.2 first _ h.1 hfirst).mpr rfl⟩

theorem RefusedFor.amiss (h : RefusedFor n agents i d) : Amiss n agents i := by
  cases h with
  | initialOutside ha hout => exact Or.inl ⟨_, ha, Or.inl hout⟩
  | goalOutside ha _ hout => exact Or.inl ⟨_, ha, Or.inr hout⟩
  | initialTaken ha _ _ howner =>
    obtain ⟨b, hb, hshared⟩ := howner.exists_owner ha
    exact Or.inr ⟨_, howner.1, b, _, hb, ha, Or.inl hshared⟩
  | goalTaken ha _ _ _ howner =>
    obtain ⟨b, hb, hshared⟩ := howner.exists_owner ha
    exact Or.inr ⟨_, howner.1, b, _, hb, ha, Or.inr hshared⟩

/-- Among agents that are apart, the one that is found at a node is the only one there. -/
theorem findIdx?_eq_some_iff_onlyOwner {f : Agent → Nat} (hnodup : (before.map f).Nodup)
    {x first : Nat} : before.findIdx? (f · = x) = some first ↔
      OnlyOwner (before ++ rest) before.length f x first := by
  have hat {j : Nat} {b : Agent} (hj : j < before.length) :
      (before ++ rest)[j]? = some b ↔ before[j] = b := by
    rw [List.getElem?_append_left hj, List.getElem?_eq_getElem hj, Option.some.injEq]
  rw [List.findIdx?_eq_some_iff_getElem]
  constructor
  · rintro ⟨hfirst, hx, -⟩
    refine ⟨hfirst, fun j b hj hb => ?_⟩
    rw [← (hat hj).mp hb, ← of_decide_eq_true hx]
    have hj' : j < (before.map f).length := by rwa [List.length_map]
    have hfirst' : first < (before.map f).length := by rwa [List.length_map]
    have hinj : (before.map f)[j] = (before.map f)[first] ↔ j = first := hnodup.getElem_inj_iff
    rwa [List.getElem_map, List.getElem_map] at hinj
  · rintro ⟨hfirst, honly⟩
    have honly {j : Nat} (hj : j < before.length) : f before[j] = x ↔ j = first :=
      honly j _ hj ((hat hj).mpr rfl)
    refine ⟨hfirst, decide_eq_true ((honly hfirst).mpr rfl), fun j hj => ?_⟩
    have hne : f before[j] ≠ x := mt (honly (Nat.lt_trans hj hfirst)).mp (Nat.ne_of_lt hj)
    simpa using hne

theorem findIdx?_eq_none_iff_forall {f : Agent → Nat} {x : Nat} :
    before.findIdx? (f · = x) = none ↔
      ∀ j b, j < before.length → (before ++ rest)[j]? = some b → f b ≠ x := by
  simp only [List.findIdx?_eq_none_iff, List.forall_mem_iff_getElem, decide_eq_false_iff_not]
  refine forall_congr' fun j => ?_
  constructor
  · intro h b hj hb
    rw [List.getElem?_append_left hj, List.getElem?_eq_getElem hj] at hb
    exact Option.some.inj hb ▸ h hj
  · intro h hj
    exact h _ hj (by rw [List.getElem?_append_left hj, List.getElem?_eq_getElem hj])

/-- The defect of the agent behind admissible ones is what it is refused for. -/
theorem defect?_eq_some_iff (hbefore : Admissible n before) (rest : List Agent) :
    a.defect? n before = some d ↔ RefusedFor n (before ++ a :: rest) before.length d := by
  have hat : (before ++ a :: rest)[before.length]? = some a := by simp
  constructor
  · intro h
    unfold Agent.defect? at h
    split at h
    next hout =>
      cases h
      exact .initialOutside hat hout
    next hinitial =>
      split at h
      next hout =>
        cases h
        exact .goalOutside hat (Nat.not_le.mp hinitial) hout
      next hgoal =>
        split at h
        next first hfind =>
          cases h
          exact .initialTaken hat (Nat.not_le.mp hinitial) (Nat.not_le.mp hgoal)
            ((findIdx?_eq_some_iff_onlyOwner hbefore.initials).mp hfind)
        next hnone =>
          split at h
          next first hfind =>
            cases h
            exact .goalTaken hat (Nat.not_le.mp hinitial) (Nat.not_le.mp hgoal)
              (findIdx?_eq_none_iff_forall.mp hnone)
              ((findIdx?_eq_some_iff_onlyOwner hbefore.goals).mp hfind)
          next => cases h
  · intro h
    cases h with
    | initialOutside ha hout =>
      cases hat.symm.trans ha
      rw [Agent.defect?, if_pos hout]
    | goalOutside ha hinitial hout =>
      cases hat.symm.trans ha
      rw [Agent.defect?, if_neg (Nat.not_le.mpr hinitial), if_pos hout]
    | initialTaken ha hinitial hgoal howner =>
      cases hat.symm.trans ha
      rw [Agent.defect?, if_neg (Nat.not_le.mpr hinitial), if_neg (Nat.not_le.mpr hgoal),
        (findIdx?_eq_some_iff_onlyOwner hbefore.initials).mpr howner]
    | goalTaken ha hinitial hgoal hapart howner =>
      cases hat.symm.trans ha
      rw [Agent.defect?, if_neg (Nat.not_le.mpr hinitial), if_neg (Nat.not_le.mpr hgoal),
        findIdx?_eq_none_iff_forall.mpr hapart,
        (findIdx?_eq_some_iff_onlyOwner hbefore.goals).mpr howner]

/-- The first defect is what the first agent that is amiss is refused for. -/
theorem firstDefect?_eq_some_iff_refusedFor (hbefore : Admissible n before) :
    firstDefect? n before agents = some d ↔
      ∃ i, IsLeast {i | Amiss n (before ++ agents) i} i ∧ RefusedFor n (before ++ agents) i d := by
  induction agents generalizing before with
  | nil =>
    refine iff_of_false (by simp [firstDefect?]) ?_
    rintro ⟨i, hleast, -⟩
    rw [List.append_nil] at hleast
    exact hbefore.not_amiss i hleast.1
  | cons a rest ih =>
    rw [firstDefect?]
    split
    next d' hd =>
      have hrefused := (defect?_eq_some_iff hbefore rest).mp hd
      have hleast : IsLeast {i | Amiss n (before ++ a :: rest) i} before.length :=
        ⟨hrefused.amiss, fun i hi => Nat.not_lt.mp fun hlt =>
          hbefore.not_amiss i ((amiss_append_left hlt).mp hi)⟩
      constructor
      · rintro ⟨⟩
        exact ⟨_, hleast, hrefused⟩
      · rintro ⟨i, hi, h⟩
        rw [hi.unique hleast] at h
        rw [← hd, (defect?_eq_some_iff hbefore rest).mpr h]
    next hnone =>
      have hnext := admissible_concat.mpr ⟨hbefore, Agent.defect?_eq_none.mp hnone⟩
      rw [List.append_cons before a rest]
      exact ih hnext

namespace Problem

variable {g : Graph} {p : Problem}

theorem ofAgents_eq_error :
    ofAgents g agents = .error d ↔ firstDefect? g.size [] agents = some d := by
  unfold ofAgents
  split
  next d' hd => rw [hd, Except.error.injEq, Option.some.injEq]
  next hnone => simp [hnone]

theorem ofAgents_eq_ok : ofAgents g agents = .ok p ↔ p.graph = g ∧ p.agents = agents := by
  unfold ofAgents
  split
  next d hd =>
    refine iff_of_false (by simp) ?_
    rintro ⟨rfl, rfl⟩
    have hnone := (firstDefect?_eq_none (Admissible.nil _)).mpr p.admissible
    rw [hd] at hnone
    cases hnone
  next => rw [Except.ok.injEq, eq_comm, Problem.mk.injEq]

/-- A graph and agents are taken as they are if the agents travel inside the graph and are apart at
both ends. Otherwise the first agent that is amiss is named, with what it is refused for. -/
theorem ofAgents_exact (g : Graph) (agents : List Agent) :
    ((∃ p, ofAgents g agents = .ok p) ↔ Admissible g.size agents) ∧
    (∀ p, ofAgents g agents = .ok p ↔ p.graph = g ∧ p.agents = agents) ∧
    ∀ d, ofAgents g agents = .error d ↔
      ∃ i, IsLeast {i | Amiss g.size agents i} i ∧ RefusedFor g.size agents i d := by
  refine ⟨?_, fun p => ofAgents_eq_ok, fun d => ?_⟩
  · simp only [ofAgents_eq_ok]
    constructor
    · rintro ⟨p, rfl, rfl⟩
      exact p.admissible
    · intro h
      exact ⟨⟨g, agents, h⟩, rfl, rfl⟩
  · rw [ofAgents_eq_error]
    exact firstDefect?_eq_some_iff_refusedFor (Admissible.nil _)

/-- The goal that the third agent shares counts before the fourth one leaves the graph. -/
example : ofAgents (.empty 3) [⟨0, 1⟩, ⟨1, 2⟩, ⟨2, 1⟩, ⟨5, 0⟩] = .error (.sharedGoal 1 0 2) := by
  decide

end Problem

end AgentPaths
