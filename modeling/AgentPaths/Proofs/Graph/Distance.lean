import AgentPaths.Proofs.Graph.Walk
import Mathlib.Data.ENat.Lattice

/-!
Distances counted in edges. A path follows an edge in each step and never waits. A walk may wait, so
walks of `t` steps lead exactly to the nodes that are at most `t` edges away; nodes to which no path
leads are infinitely far away.
-/
namespace AgentPaths

namespace Graph

/-- `g.Path u d v`: some path of `d` edges leads from `u` to `v`. -/
inductive Path (g : Graph) (u : Nat) : Nat → Nat → Prop
  | start : Path g u 0 u
  | edge {d v w : Nat} : Path g u d v → g.hasEdge v w = true → Path g u (d + 1) w

/-- The number of edges of a shortest path, and infinite where there is none. -/
noncomputable def distance (g : Graph) (u v : Nat) : ℕ∞ :=
  ⨅ (d : Nat) (_ : g.Path u d v), (d : ℕ∞)

variable {g : Graph} {u v : Nat}

theorem Path.walk {d : Nat} (h : g.Path u d v) : g.Walk u d v := by
  induction h with
  | start => exact .start
  | edge _ he ih => exact ih.move he

theorem walk_iff_path {t : Nat} : g.Walk u t v ↔ ∃ d ≤ t, g.Path u d v := by
  constructor
  · intro h
    induction h with
    | start => exact ⟨0, Nat.le_refl 0, .start⟩
    | wait _ ih =>
      obtain ⟨d, hd, hpath⟩ := ih
      exact ⟨d, Nat.le_succ_of_le hd, hpath⟩
    | move _ he ih =>
      obtain ⟨d, hd, hpath⟩ := ih
      exact ⟨d + 1, Nat.succ_le_succ hd, hpath.edge he⟩
  · intro h
    obtain ⟨d, hd, hpath⟩ := h
    exact hpath.walk.mono hd

theorem lt_distance_iff {m : Nat} : (m : ℕ∞) < g.distance u v ↔ ¬g.Walk u m v := by
  rw [← ENat.add_one_le_iff (ENat.natCast_ne_top m), distance, le_iInf₂_iff, walk_iff_path]
  constructor
  · intro hall h
    obtain ⟨d, hd, hpath⟩ := h
    have hlt := hall d hpath
    norm_cast at hlt
    omega
  · intro hnone d hpath
    have hlt : m + 1 ≤ d := Nat.lt_of_not_le fun hd => hnone ⟨d, hd, hpath⟩
    exact_mod_cast hlt

theorem distance_le_iff {m : Nat} : g.distance u v ≤ m ↔ g.Walk u m v := by
  rw [← not_lt, lt_distance_iff, not_not]

theorem le_distance_iff {m : Nat} : (m : ℕ∞) ≤ g.distance u v ↔ ∀ e < m, ¬g.Walk u e v := by
  constructor
  · intro hle e he
    exact lt_distance_iff.mp (lt_of_lt_of_le (Nat.cast_lt.mpr he) hle)
  · intro hnone
    cases m with
    | zero => exact bot_le
    | succ m =>
      rw [Nat.cast_succ, ENat.add_one_le_iff (ENat.natCast_ne_top m)]
      exact lt_distance_iff.mpr (hnone m (Nat.lt_succ_self m))

theorem distance_eq_iff {d : Nat} : g.distance u v = d ↔ g.IsDistance u d v := by
  rw [le_antisymm_iff, distance_le_iff, le_distance_iff]
  rfl

theorem distance_comm (g : Graph) (u v : Nat) : g.distance u v = g.distance v u := by
  refine ENat.eq_of_forall_natCast_le_iff fun m => ?_
  have hsymm (e : Nat) : g.Walk u e v ↔ g.Walk v e u := ⟨Walk.symm, Walk.symm⟩
  simp only [le_distance_iff, hsymm]

end Graph

end AgentPaths
