import AgentPaths.Proofs.Sat.Contract
import AgentPaths.Proofs.Sat.Solver

/-!
The oracle that is made of a solver. Clauses are loaded in chunks, with a look at the token before
each, and all of them reach the solver in its own terms. With a token that stays clear a right reply
becomes a right answer, so that the adapter of a solver that is right keeps the contract of an
oracle on variables that the solver can name.
-/
namespace AgentPaths.Adapter

variable {solver : Solver} {poll : Poll} {range n : Nat} {cs : List Clause}
  {ds : List (List solver.Lit)}

/-- The number of chunks in which clauses are loaded. -/
def chunks (cs : List Clause) : Nat := (cs.length + (interval - 1)) / interval

/-- The number of looks at the token in a call that asks its solver: one before every chunk, one
before the solver begins and one after it has answered. -/
def looks (cs : List Clause) : Nat := chunks cs + 2

theorem chunks_eq_succ (h : cs ≠ []) : chunks cs = chunks (cs.drop interval) + 1 := by
  have hpos := List.length_pos_iff.mpr h
  simp only [chunks, List.length_drop, interval]
  omega

/-- Clauses in the terms of a solver are put into them one by one. -/
theorem ofClauses?_eq_some_iff : solver.ofClauses? cs = some ds ↔
    cs.map (·.mapM solver.ofLiteral?) = ds.map some := by
  unfold Solver.ofClauses?
  induction cs generalizing ds with
  | nil => cases ds <;> simp
  | cons c rest ih =>
    rw [List.mapM_cons]
    cases ds with
    | nil => cases c.mapM solver.ofLiteral? <;> cases rest.mapM (·.mapM solver.ofLiteral?) <;> simp
    | cons d more =>
      rw [List.map_cons, List.map_cons, List.cons.injEq, ← ih]
      cases c.mapM solver.ofLiteral? <;> cases rest.mapM (·.mapM solver.ofLiteral?) <;> simp

theorem ofClauses?_take (h : solver.ofClauses? cs = some ds) (k : Nat) :
    solver.ofClauses? (cs.take k) = some (ds.take k) := by
  rw [ofClauses?_eq_some_iff] at h ⊢
  rw [List.map_take, h, List.map_take]

theorem ofClauses?_drop (h : solver.ofClauses? cs = some ds) (k : Nat) :
    solver.ofClauses? (cs.drop k) = some (ds.drop k) := by
  rw [ofClauses?_eq_some_iff] at h ⊢
  rw [List.map_drop, h, List.map_drop]

/-- All clauses are loaded if no look before a chunk sees the token set. -/
theorem load_of_clear {look : Nat} {loaded : List (List solver.Lit)}
    (hds : solver.ofClauses? cs = some ds) (h : ∀ i < chunks cs, poll (look + i) = false) :
    load solver poll look loaded cs = .ok (some (look + chunks cs, loaded ++ ds)) := by
  fun_induction load solver poll look loaded cs generalizing ds with
  | case1 look loaded =>
    cases hds
    simp [chunks, interval]
  | case2 look loaded cs hne hset =>
    rw [chunks_eq_succ hne] at h
    exact absurd hset (by simpa using h 0 (Nat.succ_pos _))
  | case3 look loaded cs hne _ hnone => cases (ofClauses?_take hds interval).symm.trans hnone
  | case4 look loaded cs hne _ chunk hchunk ih =>
    rw [chunks_eq_succ hne] at h ⊢
    cases (ofClauses?_take hds interval).symm.trans hchunk
    have hrest : ∀ i < chunks (cs.drop interval), poll (look + 1 + i) = false := by
      intro i hi
      rw [Nat.add_assoc, Nat.add_comm 1 i]
      exact h (i + 1) (Nat.succ_lt_succ hi)
    rw [ih (ofClauses?_drop hds interval) hrest, List.append_assoc, List.take_append_drop,
      Nat.add_assoc, Nat.add_comm 1]

theorem load_of_set {look : Nat} {loaded : List (List solver.Lit)}
    (hds : solver.ofClauses? cs = some ds) (h : ∃ i < chunks cs, poll (look + i) = true) :
    load solver poll look loaded cs = .ok none := by
  fun_induction load solver poll look loaded cs generalizing ds with
  | case1 look loaded => simp [chunks, interval] at h
  | case2 => rfl
  | case3 look loaded cs hne _ hnone => cases (ofClauses?_take hds interval).symm.trans hnone
  | case4 look loaded cs hne hclear chunk hchunk ih =>
    obtain ⟨i, hi, hset⟩ := h
    cases i with
    | zero => exact absurd hset hclear
    | succ i =>
      rw [chunks_eq_succ hne] at hi
      refine ih (ofClauses?_drop hds interval) ⟨i, Nat.lt_of_succ_lt_succ hi, ?_⟩
      rwa [Nat.add_assoc, Nat.add_comm 1 i]

theorem load_of_none {look : Nat} {loaded : List (List solver.Lit)} (hclear : ∀ i, poll i = false)
    (hnone : solver.ofClauses? cs = none) : load solver poll look loaded cs = .error .tooLarge := by
  fun_induction load solver poll look loaded cs with
  | case1 look loaded => cases hnone
  | case2 look loaded cs _ hset => simp [hclear look] at hset
  | case3 => rfl
  | case4 look loaded cs _ _ chunk hchunk ih =>
    apply ih
    rw [← List.take_append_drop interval cs, Solver.ofClauses?, List.mapM_append] at hnone
    rw [Solver.ofClauses?] at hchunk
    rw [hchunk] at hnone
    cases hrest : solver.ofClauses? (cs.drop interval) with
    | none => rfl
    | some rest =>
      rw [Solver.ofClauses?] at hrest
      rw [hrest] at hnone
      cases hnone

/-- What comes of loading clauses that the solver can name depends on what the looks before the
chunks see. -/
theorem load_cases (poll : Poll) (hds : solver.ofClauses? cs = some ds) :
    (∃ look < chunks cs, poll look = true) ∧ load solver poll 0 [] cs = .ok none ∨
      (∀ look < chunks cs, poll look = false) ∧
        load solver poll 0 [] cs = .ok (some (chunks cs, ds)) := by
  by_cases h : ∃ look < chunks cs, poll look = true
  · exact Or.inl ⟨h, load_of_set hds (by simpa using h)⟩
  · have hclear : ∀ look < chunks cs, poll look = false := by simpa using h
    have hload : load solver poll 0 [] cs = .ok (some (0 + chunks cs, [] ++ ds)) :=
      load_of_clear hds (by simpa using hclear)
    exact Or.inr ⟨hclear, by rwa [Nat.zero_add, List.nil_append] at hload⟩

variable [Memory]

/-- A call that never sees the token set makes a right answer of a right reply. -/
theorem exists_right (hds : solver.ofClauses? cs = some ds) (hstates : solver.States cs ds)
    (hright : solver.Right ds (solver.solve ds)) (hmemory : Memory.lack? n = none)
    (hbelow : VarsBelow n cs) (hclear : ∀ look < looks cs, poll look = false) :
    ∃ answer, solve solver poll n cs = .ok answer ∧ answer.Right n cs := by
  have hbegin : poll (chunks cs) = false := hclear _ (by unfold looks; omega)
  have hend : poll (chunks cs + 1) = false := hclear _ (by unfold looks; omega)
  rcases load_cases poll hds with ⟨⟨look, hlook, hset⟩, _⟩ | ⟨_, hload⟩
  · rw [hclear look (by unfold looks; omega)] at hset
    cases hset
  · rw [solve, hload]
    dsimp only
    rw [hbegin, if_neg Bool.false_ne_true, hend]
    cases hreply : solver.solve ds with
    | failed text =>
      rw [hreply] at hright
      cases hright
    | unsatisfiable =>
      rw [hreply] at hright
      exact ⟨.unsatisfiable, rfl, hstates.ne_of_unsatisfiable hright hbelow⟩
    | satisfiable model =>
      rw [hreply] at hright
      cases model with
      | none => cases hright
      | some ls =>
        have hmodel : solver.IsModel ds ls := hright
        refine ⟨.satisfiable (solver.assignment n ls), ?_, by simp,
          hmodel.satisfied?_assignment hstates hbelow⟩
        simp [hmemory]

/-- A call that sees the token set refutes the clauses, unless its solver has given up before. -/
theorem unsatisfiable_or_failed (hds : solver.ofClauses? cs = some ds)
    (hset : ∃ look < looks cs, poll look = true) :
    solve solver poll n cs = .ok .unsatisfiable ∨
      ∃ text, solver.solve ds = .failed text ∧ solve solver poll n cs = .error (.solver text) := by
  rcases load_cases poll hds with ⟨_, hload⟩ | ⟨hclear, hload⟩
  · exact Or.inl (by rw [solve, hload])
  · rw [solve, hload]
    dsimp only
    cases hbegin : poll (chunks cs) with
    | true => exact Or.inl (if_pos rfl)
    | false =>
      -- only the look after the reply is left
      have hend : poll (chunks cs + 1) = true := by
        obtain ⟨look, hlook, hset⟩ := hset
        have hnotBefore : ¬look < chunks cs := fun hlt => by simp [hclear look hlt] at hset
        have hnotBegin : look ≠ chunks cs := fun he => by simp [he, hbegin] at hset
        have hlast : look = chunks cs + 1 := by
          unfold looks at hlook
          omega
        exact hlast ▸ hset
      rw [if_neg Bool.false_ne_true, hend]
      cases hreply : solver.solve ds with
      | failed text => exact Or.inr ⟨text, rfl, rfl⟩
      | unsatisfiable => exact Or.inl rfl
      | satisfiable model => exact Or.inl rfl

/-- The adapter of a solver that is right decides clauses that the solver can name. -/
theorem decides (hkeeps : solver.Keeps) (hds : solver.ofClauses? cs = some ds)
    (hmemory : Memory.lack? n = none) (hbelow : VarsBelow n cs) :
    (oracle solver).Decides n cs := by
  intro _ poll _
  show ∃ answer, solve solver poll n cs = .ok answer ∧ _
  have hstates := hkeeps.faithful.states hds
  have hright := hkeeps.right ds
  by_cases hset : ∃ look < looks cs, poll look = true
  · rcases unsatisfiable_or_failed (n := n) hds hset with hanswer | ⟨text, hreply, _⟩
    · obtain ⟨look, _, hlook⟩ := hset
      exact ⟨_, hanswer, fun hclear => absurd hlook (by simp [hclear look])⟩
    · rw [hreply] at hright
      cases hright
  · obtain ⟨answer, hanswer, h⟩ :=
      exists_right hds hstates hright hmemory hbelow (by simpa using hset)
    exact ⟨answer, hanswer, fun _ => h⟩

/-- It declines those that the solver cannot name. -/
theorem declines (hnone : solver.ofClauses? cs = none) : (oracle solver).Declines n cs := by
  intro _
  show solve solver (fun _ => false) n cs = .error (.misuse .tooLarge)
  rw [solve, load_of_none (fun _ => rfl) hnone]

end AgentPaths.Adapter
