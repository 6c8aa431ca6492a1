import AgentPaths.Proofs.Sat.Adapter
import AgentPaths.Proofs.Search.Undisturbed
import Mathlib.Data.List.Nodup
import Mathlib.Data.List.Perm.Subperm

/-!
Searches with a solver. A makespan can be managed if its table can be laid out and the solver can
name the variables of its formula. A search ends with the first makespan that has a solution,
unless it comes to one before that cannot be managed.
-/
namespace AgentPaths

/-- A table does not give out more variables than it has entries. -/
theorem KeyTable.Lists.count_le {T : KeyTable} {ks : List Key} (h : T.Lists ks)
    (hnodup : ks.Nodup) : T.count ≤ T.ids.size := by
  have hslots : (ks.map T.slot).Nodup :=
    List.Nodup.map_on (fun _ hk _ hk' => KeyTable.slot_inj (h.covers _ hk) (h.covers _ hk')) hnodup
  have hsub : ks.map T.slot ⊆ List.range T.ids.size := by
    intro i hi
    obtain ⟨k, hk, rfl⟩ := List.mem_map.mp hi
    exact List.mem_range.mpr (KeyTable.slot_lt (h.covers k hk))
  have hle := (hslots.subperm hsub).length_le
  rwa [List.length_map, List.length_range, ← h.count] at hle

theorem Encoding.varCount_le [Memory] {p : Problem} {m : Nat}
    {windows : Option (List (Window p.graph))}
    {f : Formula} (h : Prepared p m windows) (hb : build p m windows = .ok (.built f)) :
    f.varCount ≤ (m + 1) * p.agents.length * p.graph.size := by
  obtain ⟨_, rfl, _⟩ := (build_eq_built_iff h).mp hb
  have hle := (lists_ofAdmission p (m := m) (allowed m windows)).count_le nodup_admittedKeys
  have hsizes := sizes_ofAdmission p (m := m) (allowed m windows)
  simp only [KeyTable.sizes, Prod.mk.injEq] at hsizes
  rwa [KeyTable.ids_size, hsizes.1, hsizes.2.1, hsizes.2.2] at hle

namespace Search

variable {p : Problem} {config : SearchConfig} {m : Nat}

/-- There is room for the table of a makespan, and the solver can name the variables of its formula,
if it has one. -/
structure Manageable [Memory] (p : Problem) (config : SearchConfig) (solver : Solver) (m : Nat) :
    Prop where
  fits : KeyTable.Fits m p.agents.length p.graph.size
  named : ∀ f, encodingAt p config m = .ok (.built f) →
    ∃ ds, solver.ofClauses? f.clauses.toList = some ds

/-- A solver that names everything manages all makespans whose tables can be laid out. -/
theorem manageable_of_fits [Memory] {solver : Solver}
    (hall : ∀ v b, ∃ l, solver.lit? v b = some l)
    (hfits : KeyTable.Fits m p.agents.length p.graph.size) : Manageable p config solver m :=
  ⟨hfits, fun f _ => Solver.exists_ofClauses? hall f.clauses.toList⟩

theorem handles_adapter [Memory] {solver : Solver} (hkeeps : solver.Keeps) :
    Handles p config (Adapter.oracle solver) (Manageable p config solver) := by
  refine ⟨fun m hm => hm.fits, ?_, ?_⟩
  · intro m f hm hb
    have hprepared := prepared_windowsAt (p := p) config m
    obtain ⟨ds, hds⟩ := hm.named f hb
    have hmemory : Memory.lack? f.varCount = none := by
      refine Memory.lack?_mono ?_ (KeyTable.fits_iff.mp hm.fits).2
      exact Nat.le_trans (Encoding.varCount_le hprepared hb) (Nat.le_mul_of_pos_left _ (by decide))
    exact Adapter.decides hkeeps hds hmemory (Encoding.var_lt_of_built hprepared hb)
  · intro m hm hfits
    obtain ⟨f, hf⟩ := Classical.not_forall.mp fun hnamed => hm ⟨hfits, hnamed⟩
    obtain ⟨hb, hnone⟩ := Classical.not_imp.mp hf
    have hunnamed : solver.ofClauses? f.clauses.toList = none :=
      Option.eq_none_iff_forall_ne_some.mpr fun ds hds => hnone ⟨ds, hds⟩
    exact ⟨f, hb, Adapter.declines hunnamed⟩

end Search

end AgentPaths
