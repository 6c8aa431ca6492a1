import AgentPaths.Schedule.Violation

/-!
What the checker lists. Each part of the list is described by its members, in both directions; on
schedules whose paths all have `m` steps the whole list is empty exactly for the solutions.
-/
namespace AgentPaths.Schedule

variable {g : Graph} {a b m t : Nat} {agent : Agent} {path : List Nat} {x : Violation}

theorem mem_lengthViolations {length : Nat} {paths : List (List Nat)} :
    x ∈ lengthViolations length paths ↔ ∃ a path, paths[a]? = some path ∧ path.length ≠ length ∧
      x = .unequalLength a length path.length := by
  simp only [lengthViolations, List.mem_filterMap, Prod.exists, List.mem_zipIdx_iff_getElem?]
  constructor
  · intro h
    obtain ⟨path, a, hpath, hx⟩ := h
    split at hx
    next => cases hx
    next hne => exact ⟨a, path, hpath, hne, (Option.some.inj hx).symm⟩
  · intro h
    obtain ⟨a, path, hpath, hne, hx⟩ := h
    exact ⟨path, a, hpath, by rw [if_neg hne, hx]⟩

theorem mem_moveViolations : x ∈ moveViolations g a path ↔ ∃ t u v, path[t]? = some u ∧
    path[t + 1]? = some v ∧ ¬(u = v ∨ g.hasEdge u v = true) ∧ x = .missingEdge a t u v := by
  simp only [moveViolations, List.mem_filterMap, Prod.exists, List.mem_zipIdx_iff_getElem?,
    List.getElem?_zip_eq_some, List.getElem?_tail]
  constructor
  · intro h
    obtain ⟨u, v, t, ⟨hu, hv⟩, hx⟩ := h
    split at hx
    next => cases hx
    next hnot => exact ⟨t, u, v, hu, hv, hnot, (Option.some.inj hx).symm⟩
  · intro h
    obtain ⟨t, u, v, hu, hv, hnot, hx⟩ := h
    exact ⟨u, v, t, ⟨hu, hv⟩, by rw [if_neg hnot, hx]⟩

theorem mem_pathViolations : x ∈ pathViolations g a agent path ↔
    (∃ u, path.head? = some u ∧ u ≠ agent.initial ∧ x = .wrongStart a agent.initial u) ∨
    (∃ u, path.getLast? = some u ∧ u ≠ agent.goal ∧ x = .wrongGoal a agent.goal u) ∨
    x ∈ moveViolations g a path := by
  simp only [pathViolations, List.mem_append, List.mem_map, List.mem_filter, Option.mem_toList,
    decide_eq_true_eq, or_assoc, and_assoc, eq_comm (b := x)]

theorem mem_conflictsAt {pathA pathB : Array Nat} : x ∈ conflictsAt a b pathA pathB t ↔
    (∃ u, pathA[t]? = some u ∧ pathB[t]? = some u ∧ x = .vertexConflict a b t u) ∨
    (∃ u v, u ≠ v ∧ pathA[t]? = some u ∧ pathA[t + 1]? = some v ∧ pathB[t]? = some v ∧
      pathB[t + 1]? = some u ∧ x = .swapConflict a b t u v) := by
  unfold conflictsAt
  cases pathA[t]? <;> cases pathB[t]? <;> cases pathA[t + 1]? <;> cases pathB[t + 1]? <;> grind

/-- The list for a schedule with a path of `m` steps for each agent. -/
theorem violations_of_regular {p : Problem} {s : Schedule}
    (hcount : s.paths.length = p.agents.length)
    (hlength : ∀ path ∈ s.paths, path.length = m + 1) : violations p s =
      (s.paths.zip p.agents).zipIdx.flatMap (fun ((path, agent), a) =>
        pathViolations p.graph a agent path) ++
      (pairs (s.paths.map List.toArray).zipIdx).flatMap (conflicts (m + 1)) := by
  have hlengths : lengthViolations (m + 1) s.paths = [] := by
    apply List.eq_nil_iff_forall_not_mem.mpr
    intro x hx
    obtain ⟨a, path, hpath, hne, _⟩ := mem_lengthViolations.mp hx
    exact hne (hlength path (List.mem_of_getElem? hpath))
  unfold violations
  rw [if_neg (not_not_intro hcount)]
  cases hpaths : s.paths with
  | nil => simp [lengthViolations, pairs]
  | cons path rest =>
    have hfirst : path.length = m + 1 := hlength path (by simp [hpaths])
    rw [hpaths] at hlengths
    simp [hfirst, hlengths]

theorem pathViolations_eq_nil (hlength : path.length = m + 1) :
    pathViolations g a agent path = [] ↔ IsJourney g m agent path := by
  have hhead : path.head? = path[0]? := List.head?_eq_getElem? ..
  have hlast : path.getLast? = path[m]? := by
    rw [List.getLast?_eq_getElem?, hlength, Nat.add_sub_cancel]
  rw [List.eq_nil_iff_forall_not_mem]
  constructor
  · intro h
    have hstart : path[0]? = some path[0] := List.getElem?_eq_getElem (by omega)
    have hfinish : path[m]? = some path[m] := List.getElem?_eq_getElem (by omega)
    refine ⟨hlength, ?_, ?_, ?_⟩
    · by_cases he : path[0] = agent.initial
      · rw [hstart, he]
      · exact absurd (mem_pathViolations.mpr (Or.inl ⟨_, hhead.trans hstart, he, rfl⟩)) (h _)
    · by_cases he : path[m] = agent.goal
      · rw [hfinish, he]
      · exact absurd (mem_pathViolations.mpr (Or.inr (Or.inl ⟨_, hlast.trans hfinish, he, rfl⟩)))
          (h _)
    · intro t u v hu hv
      by_cases he : u = v ∨ g.hasEdge u v = true
      · exact he
      · have hmove := mem_moveViolations (a := a) |>.mpr ⟨t, u, v, hu, hv, he, rfl⟩
        exact absurd (mem_pathViolations.mpr (Or.inr (Or.inr hmove))) (h _)
  · intro h x hx
    rcases mem_pathViolations.mp hx with ⟨u, hu, hne, _⟩ | ⟨u, hu, hne, _⟩ | hmove
    · rw [hhead, h.start] at hu
      exact hne (Option.some.inj hu).symm
    · rw [hlast, h.finish] at hu
      exact hne (Option.some.inj hu).symm
    · obtain ⟨t, u, v, hu, hv, hnot, _⟩ := mem_moveViolations.mp hmove
      exact hnot (h.steps t u v hu hv)

theorem exists_path_of_position {s : Schedule} {i v : Nat} (h : s.position? i t = some v) :
    ∃ path, s.paths[i]? = some path ∧ path[t]? = some v := Option.bind_eq_some_iff.mp h

theorem position?_of_path {s : Schedule} {i : Nat} (h : s.paths[i]? = some path) (t : Nat) :
    s.position? i t = path[t]? := by
  rw [position?, h, Option.bind_some]

theorem lt_of_position {s : Schedule} (hlength : ∀ path ∈ s.paths, path.length = m + 1)
    {i v : Nat} (hv : s.position? i t = some v) : t < m + 1 := by
  obtain ⟨path, hpath, hnode⟩ := exists_path_of_position hv
  rw [← hlength path (List.mem_of_getElem? hpath)]
  exact (List.getElem?_eq_some_iff.mp hnode).1

theorem mem_zipIdx_zip {paths : List (List Nat)} {agents : List Agent} {i : Nat} :
    ((path, agent), i) ∈ (paths.zip agents).zipIdx ↔
      paths[i]? = some path ∧ agents[i]? = some agent := by
  rw [List.mem_zipIdx_iff_getElem?, List.getElem?_zip_eq_some]

/-- The conflicts are those of an earlier with a later agent, at each time. -/
theorem mem_conflicts {s : Schedule} {length : Nat} :
    x ∈ (pairs (s.paths.map List.toArray).zipIdx).flatMap (conflicts length) ↔
      ∃ a b t, a < b ∧ t < length ∧
        ((∃ u, s.position? a t = some u ∧ s.position? b t = some u ∧ x = .vertexConflict a b t u) ∨
        (∃ u v, u ≠ v ∧ s.position? a t = some u ∧ s.position? a (t + 1) = some v ∧
          s.position? b t = some v ∧ s.position? b (t + 1) = some u ∧
          x = .swapConflict a b t u v)) := by
  have hpaths (i : Nat) (path : Array Nat) (a : Nat) :
      (s.paths.map List.toArray).zipIdx[i]? = some (path, a) ↔
        s.paths[i]? = some path.toList ∧ i = a := by
    rw [List.getElem?_zipIdx, List.getElem?_map]
    cases s.paths[i]? with
    | none => simp
    | some found =>
      simp only [Option.map_some, Option.some.injEq, Prod.mk.injEq, Nat.zero_add,
        ← Array.toList_inj]
  constructor
  · intro h
    obtain ⟨⟨⟨pathA, a⟩, ⟨pathB, b⟩⟩, hpair, hx⟩ := List.mem_flatMap.mp h
    obtain ⟨i, j, hij, hA, hB⟩ := mem_pairs_iff_getElem?.mp hpair
    obtain ⟨hpathA, rfl⟩ := (hpaths i pathA a).mp hA
    obtain ⟨hpathB, rfl⟩ := (hpaths j pathB b).mp hB
    obtain ⟨t, ht, hx⟩ := List.mem_flatMap.mp hx
    refine ⟨i, j, t, hij, List.mem_range.mp ht, ?_⟩
    simpa [position?_of_path hpathA, position?_of_path hpathB] using mem_conflictsAt.mp hx
  · intro h
    obtain ⟨a, b, t, hab, ht, hx⟩ := h
    have hboth : ∃ u v, s.position? a t = some u ∧ s.position? b t = some v := by
      rcases hx with ⟨u, ha, hb, _⟩ | ⟨u, v, _, ha, _, hb, _⟩
      · exact ⟨u, u, ha, hb⟩
      · exact ⟨u, v, ha, hb⟩
    obtain ⟨u, v, ha, hb⟩ := hboth
    obtain ⟨pathA, hpathA, _⟩ := exists_path_of_position ha
    obtain ⟨pathB, hpathB, _⟩ := exists_path_of_position hb
    have hpair : ((pathA.toArray, a), (pathB.toArray, b)) ∈
        pairs (s.paths.map List.toArray).zipIdx :=
      mem_pairs_iff_getElem?.mpr
        ⟨a, b, hab, (hpaths a _ a).mpr ⟨hpathA, rfl⟩, (hpaths b _ b).mpr ⟨hpathB, rfl⟩⟩
    refine List.mem_flatMap.mpr ⟨_, hpair, List.mem_flatMap.mpr ⟨t, List.mem_range.mpr ht, ?_⟩⟩
    rw [mem_conflictsAt]
    simpa [position?_of_path hpathA, position?_of_path hpathB] using hx

/-- A schedule with paths of `m` steps has no violations exactly if it is a solution. -/
theorem violations_eq_nil_iff {p : Problem} {s : Schedule}
    (hlength : ∀ path ∈ s.paths, path.length = m + 1) :
    violations p s = [] ↔ IsSolution p m s := by
  by_cases hcount : s.paths.length = p.agents.length
  · have hlt {i t v : Nat} (hv : s.position? i t = some v) : t < m + 1 :=
      lt_of_position hlength hv
    rw [violations_of_regular hcount hlength, List.append_eq_nil_iff, List.flatMap_eq_nil_iff,
      List.eq_nil_iff_forall_not_mem]
    constructor
    · intro h
      obtain ⟨hpaths, hconflicts⟩ := h
      refine ⟨hcount, ?_, ?_, ?_⟩
      · intro i a path ha hpath
        have hnone := hpaths ((path, a), i) (mem_zipIdx_zip.mpr ⟨hpath, ha⟩)
        exact (pathViolations_eq_nil (hlength path (List.mem_of_getElem? hpath))).mp hnone
      · intro a b t u v hab ha hb huv
        subst huv
        exact hconflicts _ (mem_conflicts.mpr ⟨a, b, t, hab, hlt ha, Or.inl ⟨u, ha, hb, rfl⟩⟩)
      · intro a b t u v hab huv ha ha' hb hb'
        exact hconflicts _ (mem_conflicts.mpr
          ⟨a, b, t, hab, hlt ha, Or.inr ⟨u, v, huv, ha, ha', hb, hb', rfl⟩⟩)
    · intro h
      constructor
      · intro named hmem
        obtain ⟨⟨path, a⟩, i⟩ := named
        obtain ⟨hpath, ha⟩ := mem_zipIdx_zip.mp hmem
        exact (pathViolations_eq_nil (hlength path (List.mem_of_getElem? hpath))).mpr
          (h.journeys i a path ha hpath)
      · intro x hx
        obtain ⟨a, b, t, hab, _, hcase⟩ := mem_conflicts.mp hx
        rcases hcase with ⟨u, ha, hb, _⟩ | ⟨u, v, huv, ha, ha', hb, hb', _⟩
        · exact h.apart a b t u u hab ha hb rfl
        · exact h.noSwap a b t u v hab huv ha ha' hb hb'
  · simp only [violations, if_pos hcount, List.cons_ne_nil, false_iff]
    exact fun h => hcount h.count

end AgentPaths.Schedule

namespace AgentPaths.IsSolution

variable {p : Problem} {m : Nat} {s : Schedule}

theorem length (hs : IsSolution p m s) : ∀ path ∈ s.paths, path.length = m + 1 := by
  intro path hpath
  obtain ⟨i, hi⟩ := List.mem_iff_getElem?.mp hpath
  have hlt : i < p.agents.length := hs.count ▸ (List.getElem?_eq_some_iff.mp hi).1
  exact (hs.journeys i _ path (List.getElem?_eq_getElem hlt) hi).length

theorem violations_eq_nil (hs : IsSolution p m s) : Schedule.violations p s = [] :=
  (Schedule.violations_eq_nil_iff hs.length).mpr hs

end AgentPaths.IsSolution
