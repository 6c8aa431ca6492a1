import AgentPaths.Proofs.Schedule.Waiting
import AgentPaths.Proofs.Search.Undisturbed
import Mathlib.Data.Nat.Find

/-!
Makespans that can be solved. From one such makespan on, all can be solved whose tables can be laid
out; so a search that has one of them before it ends with the least of all, or with its first one if
that is greater.
-/
namespace AgentPaths

namespace Encoding

variable {p : Problem} {m m' : Nat} {windows windows' : Option (List (Window p.graph))}

/-- There is a formula, and it has a model. -/
def Solvable [Memory] (p : Problem) (m : Nat) (windows : Option (List (Window p.graph))) : Prop :=
  ∃ f, build p m windows = .ok (.built f) ∧
    ∃ values : Assignment, values.size = f.varCount ∧ f.satisfied? values = some true

/-- The windows make no difference. -/
theorem solvable_iff [Memory] (h : Prepared p m windows) : Solvable p m windows ↔
    KeyTable.Fits m p.agents.length p.graph.size ∧ ∃ s, IsSolution p m s := by
  constructor
  · intro hsolvable
    obtain ⟨f, hb, values, hsize, hsat⟩ := hsolvable
    obtain ⟨s, _, hs⟩ := exists_solution_of_model h hb (Nat.le_of_eq hsize.symm) hsat
    exact ⟨((build_eq_built_iff h).mp hb).1, s, hs⟩
  · intro hsolution
    obtain ⟨hfits, s, hs⟩ := hsolution
    obtain ⟨f, values, hb, hsize, hsat, _⟩ := exists_model_of_solution h hfits hs
    exact ⟨f, hb, values, hsize, hsat⟩

theorem Solvable.mono [Memory] (hsolvable : Solvable p m windows) (h : Prepared p m windows)
    (h' : Prepared p m' windows') (hm : m ≤ m')
    (hfits : KeyTable.Fits m' p.agents.length p.graph.size) : Solvable p m' windows' := by
  obtain ⟨_, s, hs⟩ := (solvable_iff h).mp hsolvable
  exact (solvable_iff h').mpr ⟨hfits, hs.exists_of_le hm⟩

end Encoding

namespace Search

variable {σ : Type} {p : Problem} {config : SearchConfig} {oracle : Oracle σ}

/-- An oracle that keeps its contract handles all makespans whose tables can be laid out. -/
theorem handles_of_keeps [Memory] (hkeeps : oracle.Keeps) : Handles p config oracle
    fun m => KeyTable.Fits m p.agents.length p.graph.size := by
  refine ⟨fun m hfits => hfits, ?_, fun m hnot hfits => absurd hfits hnot⟩
  intro m f _ hb
  exact hkeeps _ _ (Encoding.var_lt_of_built (prepared_windowsAt config m) hb)

/-- A search that has a makespan which can be solved does not end without a schedule. -/
theorem run_eq_solved [Memory] (hkeeps : oracle.Keeps) (initial : σ) {k : Nat}
    (hfirst : config.minMakespan ≤ k) (hlast : k ≤ config.maxMakespan)
    (hk : Encoding.Solvable p k (windowsAt p config k)) :
    ∃ m s, (run p oracle none config initial).2 = .ok (.solved m s) ∧ IsSolution p m s ∧
      config.minMakespan ≤ m ∧ KeyTable.Fits m p.agents.length p.graph.size ∧
      ∀ j, config.minMakespan ≤ j → j < m → ¬Feasible p j := by
  obtain ⟨hfits, hsolution⟩ := (Encoding.solvable_iff (prepared_windowsAt config k)).mp hk
  have hhandles : Handles p config oracle _ := handles_of_keeps hkeeps
  have hsettled := run_settled hhandles initial
  generalize (run p oracle none config initial).2 = result at hsettled ⊢
  have hfeasible := feasible_iff.mpr hsolution
  cases hsettled with
  | @solved m s hle _ hR hs hbefore =>
    exact ⟨m, s, rfl, hs, hle, hR, fun j hj hlt => (hbefore j hj hlt).2⟩
  | exhausted hall => exact absurd hfeasible (hall k hfirst hlast).2
  | @broken m _ _ _ hnot _ hbefore =>
    by_cases hlt : k < m
    · exact absurd hfeasible (hbefore k hfirst hlt).2
    · exact absurd (hfits.mono (Nat.not_lt.mp hlt)) hnot

/-- What can be solved stays so with more time, as far as tables can be laid out, whether there are
windows or not. So an uncancelled search with a makespan in its range that can be solved ends with
the least makespan of all that can be, or with the first of its range if that is greater. -/
theorem solvable_mono_and_run_least [Memory] (p : Problem) :
    (∀ m m' windows windows', m ≤ m' → Encoding.Prepared p m windows →
      Encoding.Prepared p m' windows' → KeyTable.Fits m' p.agents.length p.graph.size →
      Encoding.Solvable p m windows → Encoding.Solvable p m' windows') ∧
    ∀ (σ : Type) (oracle : Oracle σ) (config : SearchConfig) (initial : σ), oracle.Keeps →
      (∃ k, config.minMakespan ≤ k ∧ k ≤ config.maxMakespan ∧
        Encoding.Solvable p k (windowsAt p config k)) →
      ∃ least s, Encoding.Solvable p least (windowsAt p config least) ∧
        (∀ j, Encoding.Solvable p j (windowsAt p config j) → least ≤ j) ∧
        (run p oracle none config initial).2 = .ok (.solved (max config.minMakespan least) s) ∧
        IsSolution p (max config.minMakespan least) s := by
  classical
  refine ⟨fun m m' windows windows' hm h h' hfits hs => hs.mono h h' hm hfits, ?_⟩
  intro σ oracle config initial hkeeps hrange
  obtain ⟨k, hfirst, hlast, hk⟩ := hrange
  obtain ⟨m, s, hrun, hs, hle, hfits, hbefore⟩ := run_eq_solved hkeeps initial hfirst hlast hk
  have hsolvable (j : Nat) := Encoding.solvable_iff (prepared_windowsAt (p := p) config j)
  have hm : Encoding.Solvable p m (windowsAt p config m) := (hsolvable m).mpr ⟨hfits, s, hs⟩
  have hexists : ∃ j, Encoding.Solvable p j (windowsAt p config j) := ⟨m, hm⟩
  refine ⟨Nat.find hexists, s, Nat.find_spec hexists, fun j hj => Nat.find_min' hexists hj, ?_⟩
  have hmax : max config.minMakespan (Nat.find hexists) = m := by
    have hleast : Nat.find hexists ≤ m := Nat.find_min' hexists hm
    refine Nat.le_antisymm (Nat.max_le.mpr ⟨hle, hleast⟩) (Nat.le_of_not_lt fun hlt => ?_)
    -- otherwise the search would have ended before `m`
    obtain ⟨_, s', hs'⟩ := (hsolvable _).mp (Nat.find_spec hexists)
    obtain ⟨s'', hs''⟩ := hs'.exists_of_le (Nat.le_max_right config.minMakespan _)
    exact hbefore _ (Nat.le_max_left _ _) hlt (feasible_iff.mpr ⟨s'', hs''⟩)
  rw [hmax]
  exact ⟨hrun, hs⟩

section

attribute [local instance] Memory.ample

/-- The convoy can be solved in two steps, so in three as well; a search of at least three steps
ends with three, though two are enough. -/
theorem solvable_mono_and_run_least_convoy :
    (2 ≤ 3 ∧ Encoding.Prepared Encoding.convoy 2 (some Encoding.convoyWindows) ∧
      Encoding.Prepared Encoding.convoy 3 none ∧ KeyTable.Fits 3 2 3 ∧
      Encoding.Solvable Encoding.convoy 2 (some Encoding.convoyWindows) ∧
      Encoding.Solvable Encoding.convoy 3 none) ∧
    Oracle.exhaustive.Keeps ∧ ∃ least s,
      (∀ j, Encoding.Solvable Encoding.convoy j (windowsAt Encoding.convoy ⟨3, 4, .disabled⟩ j) →
        least ≤ j) ∧
      (run Encoding.convoy Oracle.exhaustive none ⟨3, 4, .disabled⟩ ()).2 =
        .ok (.solved (max 3 least) s) ∧ IsSolution Encoding.convoy (max 3 least) s := by
  have hprepared := Encoding.windowsPast_convoy.prepared
  have hfits : KeyTable.Fits 3 2 3 := by decide
  have hsolution : IsSolution Encoding.convoy 2 ⟨[[0, 0, 1], [1, 1, 2]]⟩ :=
    (Schedule.violations_eq_nil_iff (by decide)).mp (by decide)
  have htwo : Encoding.Solvable Encoding.convoy 2 (some Encoding.convoyWindows) :=
    (Encoding.solvable_iff hprepared).mpr ⟨by decide, _, hsolution⟩
  obtain ⟨hmono, hrun⟩ := solvable_mono_and_run_least Encoding.convoy
  have hthree := hmono 2 3 _ none (by decide) hprepared Encoding.prepared_none hfits htwo
  obtain ⟨least, s, _, hleast, hsolved, hs⟩ := hrun Unit Oracle.exhaustive ⟨3, 4, .disabled⟩ ()
    Oracle.exhaustive_keeps ⟨3, by decide, by decide, hthree⟩
  exact ⟨⟨by decide, hprepared, Encoding.prepared_none, hfits, htwo, hthree⟩,
    Oracle.exhaustive_keeps, least, s, hleast, hsolved, hs⟩

/-- Nobody is done at once, but not in so many steps that no table has room for their times. -/
theorem not_solvable_mono_deserted : Encoding.Prepared Encoding.deserted 0 none ∧
    Encoding.Prepared Encoding.deserted (addressBound - 1) none ∧ 0 ≤ addressBound - 1 ∧
    Encoding.Solvable Encoding.deserted 0 none ∧
    ¬Encoding.Solvable Encoding.deserted (addressBound - 1) none := by
  have hsolution : IsSolution Encoding.deserted 0 ⟨[]⟩ :=
    (Schedule.violations_eq_nil_iff (by decide)).mp (by decide)
  refine ⟨Encoding.prepared_none, Encoding.prepared_none, Nat.zero_le _, ?_, ?_⟩
  · exact (Encoding.solvable_iff Encoding.prepared_none).mpr ⟨by decide, _, hsolution⟩
  · intro hsolvable
    exact absurd ((Encoding.solvable_iff Encoding.prepared_none).mp hsolvable).1 (by decide)

end

end Search

end AgentPaths
