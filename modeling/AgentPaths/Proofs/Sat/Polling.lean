import AgentPaths.Proofs.Sat.Adapter
import AgentPaths.Proofs.Sat.Model

/-!
What a call of the adapter comes to, whatever its looks at the token see. With a token that stays
clear the answer is as right as the solver's reply. A look that sees the token set is the last one,
and after it nothing is found satisfiable.
-/
namespace AgentPaths.Adapter

variable {solver : Solver} {range n : Nat} {cs : List Clause}

/-- A call for variables that the solver can name, which gets all clauses, literal by literal. If no
look sees the token set and the solver does not give up, clauses are answered with a model of `n`
variables when they have one, and else they are refuted. If one does, they are refuted too, unless
the solver has given up before. -/
theorem solve_exact [Memory] (hnames : solver.Names range) (hsincere : solver.Sincere range)
    (hn : n ≤ range) (hbelow : VarsBelow n cs) (poll : Poll) :
    ∃ ds, solver.ofClauses? cs = some ds ∧ solver.States cs ds ∧
      ((∀ look < looks cs, poll look = false) → (∀ text, solver.solve ds ≠ .failed text) →
        ((∃ model : Assignment, model.size = n ∧ satisfied? model cs = some true) →
          ∃ model, solve solver poll n cs = .ok (.satisfiable model) ∧ model.size = n ∧
            satisfied? model cs = some true) ∧
        ((¬∃ model : Assignment, model.size = n ∧ satisfied? model cs = some true) →
          solve solver poll n cs = .ok .unsatisfiable)) ∧
      ((∃ look < looks cs, poll look = true) → solve solver poll n cs = .ok .unsatisfiable ∨
        ∃ text, solver.solve ds = .failed text ∧
          solve solver poll n cs = .error (.solver text)) := by
  have hnamed : VarsBelow range cs := fun c hc l hl => Nat.lt_of_lt_of_le (hbelow c hc l hl) hn
  obtain ⟨ds, hds, hstates⟩ := hnames.exists_ofClauses? hnamed
  refine ⟨ds, hds, hstates, ?_, unsatisfiable_or_failed hds⟩
  intro hclear hgood
  have hright : solver.Right ds (solver.solve ds) := by
    rcases hsincere ds (hstates.indicesBelow hnamed) with ⟨text, hfailed⟩ | hright
    · exact absurd hfailed (hgood text)
    · exact hright
  have hmemory : Memory.lack? n = none := Memory.lack?_of_le (Nat.le_trans hn hnames.range_le)
  obtain ⟨answer, hanswer, h⟩ := exists_right hds hstates hright hmemory hbelow hclear
  cases answer with
  | satisfiable model => exact ⟨fun _ => ⟨model, hanswer, h⟩, fun hnone => absurd ⟨model, h⟩ hnone⟩
  | unsatisfiable =>
    exact ⟨fun ⟨model, hsize, hsat⟩ => absurd hsat (h model hsize), fun _ => hanswer⟩

/-- Two clauses over the first two of three variables. -/
def chained : List Clause := [[.positive 0, ⟨1, true⟩], [.positive 1]]

section

attribute [local instance] Memory.ample

/-- Given to a solver that searches for any model, with a token that stays clear and with one that
is set while the solver works. -/
theorem solve_exact_chained : Solver.any.Names 3 ∧ Solver.any.Sincere 3 ∧ 3 ≤ 3 ∧
    VarsBelow 3 chained ∧
    (∃ model, solve .any (fun _ => false) 3 chained = .ok (.satisfiable model) ∧
      model.size = 3 ∧ satisfied? model chained = some true) ∧
    (solve .any (2 ≤ ·) 3 chained = .ok .unsatisfiable ∨ ∃ ds text,
      Solver.any.solve ds = .failed text ∧
        solve .any (2 ≤ ·) 3 chained = .error (.solver text)) := by
  have hbelow : VarsBelow 3 chained := by
    unfold VarsBelow
    decide
  have hnames : Solver.any.Names 3 :=
    Solver.any_keeps.faithful.names (by decide) Solver.exists_lit_any
  have hsincere : Solver.any.Sincere 3 := fun ds _ => Or.inr (Solver.any_keeps.right ds)
  have hmodel : ∃ model : Assignment, model.size = 3 ∧ satisfied? model chained = some true :=
    ⟨#[true, true, false], by decide, by decide⟩
  obtain ⟨ds, _, _, hclear, _⟩ :=
    solve_exact hnames hsincere (Nat.le_refl 3) hbelow fun _ => false
  obtain ⟨ds', _, _, _, hset⟩ :=
    solve_exact hnames hsincere (Nat.le_refl 3) hbelow (2 ≤ ·)
  have hgood : ∀ text, Solver.any.solve ds ≠ .failed text := by
    intro text htext
    have hright := Solver.any_keeps.right ds
    rw [htext] at hright
    exact hright
  refine ⟨hnames, hsincere, Nat.le_refl 3, hbelow, ?_, ?_⟩
  · exact (hclear (fun _ _ => rfl) hgood).1 hmodel
  · rcases hset ⟨2, by decide, by decide⟩ with hanswer | ⟨text, hfailed, hanswer⟩
    · exact Or.inl hanswer
    · exact Or.inr ⟨ds', text, hfailed, hanswer⟩

end

end AgentPaths.Adapter
