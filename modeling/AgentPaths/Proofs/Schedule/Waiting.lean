import AgentPaths.Proofs.Graph.Walk
import AgentPaths.Proofs.Schedule.Checking

/-!
Solutions that wait. When a solution is over, every agent is on its goal and can stay there without
being in the way of another; so a problem with a solution of `m` steps has one of every greater
number of steps.
-/
namespace AgentPaths

namespace IsJourney

variable {g : Graph} {m : Nat} {a : Agent} {path : List Nat}

/-- A journey with one more step, in which the agent stays on its goal. -/
def hold (a : Agent) (path : List Nat) : List Nat := join path [a.goal, a.goal]

theorem isJourney_hold (h : IsJourney g m a path) : IsJourney g (m + 1) a (hold a path) :=
  h.append (.single (Or.inl rfl))

theorem getElem?_of_hold (h : IsJourney g m a path) {t v : Nat} (hv : (hold a path)[t]? = some v) :
    path[min t m]? = some v := by
  rcases Nat.lt_or_ge m t with hlt | hle
  · obtain ⟨i, rfl⟩ := Nat.exists_eq_add_of_lt hlt
    have hstay : IsJourney g 1 ⟨a.goal, a.goal⟩ [a.goal, a.goal] := .single (Or.inl rfl)
    rw [hold, Nat.add_assoc, h.join_add hstay, List.getElem?_cons_succ] at hv
    obtain ⟨_, rfl⟩ := List.getElem?_eq_some_iff.mp hv
    rw [Nat.min_eq_right (Nat.le_of_lt hlt), h.finish]
    simp
  · rwa [hold, h.join_of_le hle, ← Nat.min_eq_left hle] at hv

end IsJourney

/-- The schedule with one more step, in which every agent stays on its goal. -/
def Schedule.hold (p : Problem) (s : Schedule) : Schedule :=
  ⟨p.agents.zipWith IsJourney.hold s.paths⟩

namespace IsSolution

variable {p : Problem} {m : Nat} {s : Schedule}

theorem exists_of_hold (hs : IsSolution p m s) {i : Nat} {path' : List Nat}
    (h : (s.hold p).paths[i]? = some path') : ∃ a path, p.agents[i]? = some a ∧
      s.paths[i]? = some path ∧ IsJourney p.graph m a path ∧ path' = IsJourney.hold a path := by
  obtain ⟨a, path, ha, hpath, rfl⟩ := List.getElem?_zipWith_eq_some.mp h
  exact ⟨a, path, ha, hpath, hs.journeys i a path ha hpath, rfl⟩

/-- Held agents are where they were, and at last where they were last. -/
theorem position?_of_hold (hs : IsSolution p m s) {i t v : Nat}
    (h : (s.hold p).position? i t = some v) : s.position? i (min t m) = some v := by
  obtain ⟨path', hpath', hv⟩ := Schedule.exists_path_of_position h
  obtain ⟨a, path, _, hpath, hjourney, rfl⟩ := hs.exists_of_hold hpath'
  rw [Schedule.position?_of_path hpath]
  exact hjourney.getElem?_of_hold hv

theorem hold (hs : IsSolution p m s) : IsSolution p (m + 1) (s.hold p) := by
  constructor
  · rw [Schedule.hold, List.length_zipWith, hs.count, Nat.min_self]
  · intro i a path' ha hpath'
    obtain ⟨a', path, ha', _, hjourney, rfl⟩ := hs.exists_of_hold hpath'
    cases ha.symm.trans ha'
    exact hjourney.isJourney_hold
  · intro a b t u v hab ha hb
    exact hs.apart a b _ u v hab (hs.position?_of_hold ha) (hs.position?_of_hold hb)
  · intro a b t u v hab huv ha ha' hb hb'
    have hu := hs.position?_of_hold ha
    have hv := hs.position?_of_hold ha'
    rcases Nat.lt_or_ge t m with hlt | hle
    · have ht : min t m = t := Nat.min_eq_left (Nat.le_of_lt hlt)
      have ht' : min (t + 1) m = t + 1 := Nat.min_eq_left hlt
      rw [ht] at hu
      rw [ht'] at hv
      exact hs.noSwap a b t u v hab huv hu hv (ht ▸ hs.position?_of_hold hb)
        (ht' ▸ hs.position?_of_hold hb')
    · -- nobody moves in the last step
      rw [Nat.min_eq_right hle] at hu
      rw [Nat.min_eq_right (Nat.le_succ_of_le hle), hu] at hv
      exact huv (Option.some.inj hv)

theorem exists_of_le (hs : IsSolution p m s) {m' : Nat} (h : m ≤ m') :
    ∃ s', IsSolution p m' s' := by
  induction h with
  | refl => exact ⟨s, hs⟩
  | step _ ih =>
    obtain ⟨s', hs'⟩ := ih
    exact ⟨s'.hold p, hs'.hold⟩

end IsSolution

end AgentPaths
