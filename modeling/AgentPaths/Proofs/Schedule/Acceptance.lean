import AgentPaths.Proofs.Schedule.Checking

/-!
What the checker accepts. A schedule without violations has a path for each agent, and all paths
have one length; if that is not zero, the schedule is a solution. Of paths without any nodes nothing
more is asked, so that a schedule which puts every agent nowhere is accepted too.
-/
namespace AgentPaths.Schedule

variable {p : Problem} {s : Schedule}

theorem lengthViolations_eq_nil {length : Nat} {paths : List (List Nat)} :
    lengthViolations length paths = [] ↔ ∀ path ∈ paths, path.length = length := by
  rw [List.eq_nil_iff_forall_not_mem]
  constructor
  · intro h path hpath
    obtain ⟨a, ha⟩ := List.mem_iff_getElem?.mp hpath
    by_cases hlength : path.length = length
    · exact hlength
    · exact absurd (mem_lengthViolations.mpr ⟨a, path, ha, hlength, rfl⟩) (h _)
  · intro h x hx
    obtain ⟨a, path, ha, hne, _⟩ := mem_lengthViolations.mp hx
    exact hne (h path (List.mem_of_getElem? ha))

/-- The number of paths and their lengths are looked at first. -/
theorem count_and_length_of_accepted (h : violations p s = []) :
    s.paths.length = p.agents.length ∧ ∃ length, ∀ path ∈ s.paths, path.length = length := by
  unfold violations at h
  split at h
  next => cases h
  next hcount =>
    refine ⟨Decidable.not_not.mp hcount, (s.paths.head?.map List.length).getD 0, ?_⟩
    dsimp only at h
    split at h
    next => exact lengthViolations_eq_nil.mp h
    next hregular => exact lengthViolations_eq_nil.mp (Decidable.not_not.mp (not_or.mp hregular).1)

/-- Where every agent has a path without nodes, nothing is looked at. -/
theorem violations_eq_nil_of_void (hcount : s.paths.length = p.agents.length)
    (hvoid : ∀ path ∈ s.paths, path = []) : violations p s = [] := by
  have hlength : (s.paths.head?.map List.length).getD 0 = 0 := by
    cases hpaths : s.paths with
    | nil => rfl
    | cons path rest => simp [hvoid path (by simp [hpaths])]
  have hlengths : lengthViolations 0 s.paths = [] :=
    lengthViolations_eq_nil.mpr fun path hpath => by rw [hvoid path hpath, List.length_nil]
  simp [violations, hcount, hlength, hlengths]

/-- Only without any nodes is an accepted schedule no solution. -/
theorem isSolution_or_void (h : violations p s = []) :
    (∃ m, IsSolution p m s) ∨ s.paths ≠ [] ∧ ∀ path ∈ s.paths, path = [] := by
  obtain ⟨hcount, length, hlength⟩ := count_and_length_of_accepted h
  by_cases hnone : s.paths = []
  · have hregular : ∀ path ∈ s.paths, path.length = 0 + 1 := by simp [hnone]
    exact Or.inl ⟨0, (violations_eq_nil_iff hregular).mp h⟩
  · cases length with
    | zero =>
      exact Or.inr ⟨hnone, fun path hpath => List.length_eq_zero_iff.mp (hlength path hpath)⟩
    | succ m => exact Or.inl ⟨m, (violations_eq_nil_iff hlength).mp h⟩

/-- The checker accepts the solutions and, besides them, exactly the schedules that have a path for
each agent, at least one, and all of them without nodes. -/
theorem accepted_iff : violations p s = [] ↔ (∃ m, IsSolution p m s) ∨
    (s.paths.length = p.agents.length ∧ s.paths ≠ [] ∧ ∀ path ∈ s.paths, path = []) := by
  constructor
  · intro h
    rcases isSolution_or_void h with hsolution | hvoid
    · exact Or.inl hsolution
    · exact Or.inr ⟨(count_and_length_of_accepted h).1, hvoid⟩
  · intro h
    rcases h with ⟨m, hs⟩ | ⟨hcount, _, hvoid⟩
    · exact hs.violations_eq_nil
    · exact violations_eq_nil_of_void hcount hvoid

/-- Two nodes without an edge, and an agent that has to get from one to the other. -/
def stranded : Problem := ⟨Graph.empty 2, [⟨0, 1⟩], by decide, by decide, by decide⟩

/-- The stranded agent has no journey at all, but its empty path is accepted. -/
theorem void_accepted_stranded :
    violations stranded ⟨[[]]⟩ = [] ∧ ¬∃ m, IsSolution stranded m ⟨[[]]⟩ := by
  refine ⟨by decide, ?_⟩
  intro h
  obtain ⟨m, hs⟩ := h
  exact absurd (hs.length [] (by simp)) (by simp)

end AgentPaths.Schedule
