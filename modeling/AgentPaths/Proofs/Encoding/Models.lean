import AgentPaths.Proofs.Encoding.Correctness
import Mathlib.Logic.ExistsUnique

/-!
Models and solutions. Decoding is a bijection from the models of the formula of a problem, with one
value for each variable, to the solutions of the problem; longer models decode to solutions too, and
windows change nothing about it. The formula of a solvable problem is missing only when its table
cannot be laid out.
-/
namespace AgentPaths.Encoding

variable {p : Problem} {m : Nat} {windows : Option (List (Window p.graph))} {f : Formula}

/-- Every model is decoded, and to a schedule that the checker has nothing against. -/
theorem models_are_solutions [Memory] (h : Prepared p m windows)
    (hb : build p m windows = .ok (.built f))
    (values : Assignment) (hsize : f.varCount ≤ values.size)
    (hsat : f.satisfied? values = some true) : ∃ s,
      Schedule.decode f p.agents.length p.graph.size values = .ok s ∧ IsSolution p m s ∧
        Schedule.violations p s = [] := by
  obtain ⟨s, hdecode, hs⟩ := exists_solution_of_model h hb hsize hsat
  exact ⟨s, hdecode, hs, hs.violations_eq_nil⟩

/-- Two agents that move along a path of three nodes, one behind the other. -/
def convoy : Problem where
  graph := ((Graph.empty 3).join 0 1).join 1 2
  agents := [⟨0, 1⟩, ⟨1, 2⟩]
  admissible := ⟨by decide, by decide, by decide⟩

def convoyWindows : List (Window convoy.graph) :=
  (convoy.agents.map (Window.start convoy.graph)).map (Window.extend · 2)

theorem windowsPast_convoy : WindowsPast convoy 2 convoyWindows := windowsFor_start.extend 2

def convoyFormula : Formula := ofAdmission convoy 2 (allowed 2 (some convoyWindows))

section

attribute [local instance] Memory.ample

theorem build_convoy : build convoy 2 (some convoyWindows) = .ok (.built convoyFormula) := by rfl

/-- The first agent waits once; the second one too, so that it leaves the middle just in time. -/
theorem models_are_solutions_convoy :
    Prepared convoy 2 (some convoyWindows) ∧
    build convoy 2 (some convoyWindows) = .ok (.built convoyFormula) ∧
    convoyFormula.varCount ≤ 8 ∧
    convoyFormula.satisfied? #[true, true, false, true, true, true, false, true] = some true ∧
    ∃ s, Schedule.decode convoyFormula 2 3 #[true, true, false, true, true, true, false, true] =
        .ok s ∧ IsSolution convoy 2 s ∧ Schedule.violations convoy s = [] :=
  ⟨windowsPast_convoy.prepared, build_convoy, by decide, by rfl,
    models_are_solutions windowsPast_convoy.prepared build_convoy _ (by decide) (by rfl)⟩

end

/-- Where the table can be laid out, each solution is decoded from exactly one model with a value
for each variable, and each such model is decoded to a solution; elsewhere there is no formula, but
the reason why there is no table. -/
theorem solutions_have_unique_models [Memory] (h : Prepared p m windows) :
    (KeyTable.Fits m p.agents.length p.graph.size → ∀ s, IsSolution p m s →
      ∃ f, build p m windows = .ok (.built f) ∧ ∃! values : Assignment, values.size = f.varCount ∧
        f.satisfied? values = some true ∧
        Schedule.decode f p.agents.length p.graph.size values = .ok s) ∧
    (∀ f, build p m windows = .ok (.built f) → ∀ values : Assignment, values.size = f.varCount →
      f.satisfied? values = some true →
      ∃ s, Schedule.decode f p.agents.length p.graph.size values = .ok s ∧ IsSolution p m s) ∧
    ∀ misuse, KeyTable.lack? m p.agents.length p.graph.size = some misuse →
      build p m windows = .error misuse := by
  refine ⟨?_, ?_, fun misuse => build_of_lack h⟩
  · intro hfits s hs
    obtain ⟨f, values, hb, hsize, hsat, hdecode⟩ := exists_model_of_solution h hfits hs
    refine ⟨f, hb, values, ⟨hsize, hsat, hdecode⟩, ?_⟩
    intro values' hvalues'
    obtain ⟨hsize', _, hdecode'⟩ := hvalues'
    exact eq_of_decode_eq h hb hsize' hsize hdecode' hdecode
  · intro f hb values hsize hsat
    exact exists_solution_of_model h hb (Nat.le_of_eq hsize.symm) hsat

section

attribute [local instance] Memory.ample

/-- The convoy has a solution in two steps, and so a formula with one model for it. -/
theorem solutions_have_unique_models_convoy :
    Prepared convoy 2 (some convoyWindows) ∧ KeyTable.Fits 2 2 3 ∧
    IsSolution convoy 2 ⟨[[0, 0, 1], [1, 1, 2]]⟩ ∧
    ∃ f, build convoy 2 (some convoyWindows) = .ok (.built f) ∧
      ∃! values : Assignment, values.size = f.varCount ∧ f.satisfied? values = some true ∧
      Schedule.decode f 2 3 values = .ok ⟨[[0, 0, 1], [1, 1, 2]]⟩ := by
  have hfits : KeyTable.Fits 2 2 3 := by decide
  have hs : IsSolution convoy 2 ⟨[[0, 0, 1], [1, 1, 2]]⟩ :=
    (Schedule.violations_eq_nil_iff (by decide)).mp (by decide)
  have hprepared := windowsPast_convoy.prepared
  exact ⟨hprepared, hfits, hs, (solutions_have_unique_models hprepared).1 hfits _ hs⟩

end

/-- The graph without nodes, where nobody travels. -/
def deserted : Problem := ⟨Graph.empty 0, [], Admissible.nil 0⟩

section

attribute [local instance] Memory.ample

/-- Nobody's journey of very many steps is a solution, yet its formula would have more times than
can be addressed. -/
theorem deserted_not_built : Prepared deserted (addressBound - 1) none ∧
    IsSolution deserted (addressBound - 1) ⟨[]⟩ ∧
    ¬∃ f, build deserted (addressBound - 1) none = .ok (.built f) := by
  refine ⟨prepared_none, ⟨rfl, ?_, ?_, ?_⟩, ?_⟩
  · intro i a path ha
    cases ha
  · intro a b t u v _ ha
    cases ha
  · intro a b t u v _ _ ha
    cases ha
  · intro h
    obtain ⟨f, hf⟩ := h
    have hlack : KeyTable.lack? (addressBound - 1) 0 0 = some .tooLarge := by decide
    cases (build_of_lack prepared_none hlack).symm.trans hf

end

end AgentPaths.Encoding
