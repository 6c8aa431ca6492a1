import AgentPaths.Proofs.Graph.Distance
import AgentPaths.Proofs.Window.Journey

/-!
The distances that a window has recorded. After `k` ticks these are the distances below `k`, each
as it is in the graph; so what is recorded stays, and the calls that made the ticks leave no trace.
-/
namespace AgentPaths

/-- An answer that gives a distance if it is below `k`, and says otherwise that it is not. -/
structure TellsBelow (k : Nat) (distance : ℕ∞) (answer : Except Misuse (Option Nat)) : Prop where
  known : ∀ d : Nat, answer = .ok (some d) ↔ distance = d ∧ d < k
  unknown : answer = .ok none ↔ k ≤ distance

/-- A distance that is told stays so with a greater bound. -/
theorem TellsBelow.lasts {k k' d : Nat} {distance : ℕ∞}
    {answer answer' : Except Misuse (Option Nat)} (h : TellsBelow k distance answer)
    (h' : TellsBelow k' distance answer') (hk : k ≤ k') (hd : answer = .ok (some d)) :
    answer' = .ok (some d) := by
  obtain ⟨hdistance, hlt⟩ := (h.known d).mp hd
  exact (h'.known d).mpr ⟨hdistance, by omega⟩

namespace Sweep.Exact

variable {g : Graph} {s tick v : Nat} {w : Sweep}

theorem known (h : Exact g s tick w) (d : Nat) :
    w.distance? v = some d ↔ g.distance s v = d ∧ d < tick := by
  rw [h.distance, Graph.distance_eq_iff, and_comm]

theorem unknown (h : Exact g s tick w) : w.distance? v = none ↔ tick ≤ g.distance s v := by
  rw [distance?_eq_none (h.distance v), Graph.le_distance_iff]

end Sweep.Exact

namespace Window

variable {g : Graph} {a : Agent} {w : Window g} {v : Nat}

theorem entry_eq_ok {α : Type} {f : Window g → Nat → α} {x : α} (hv : v < g.size) :
    entry f w v = .ok x ↔ f w v = x := by
  rw [entry, if_pos hv, Except.ok.injEq]

theorem Advanced.tellsBelow (h : w.Advanced a) (ha : a.initial < g.size ∧ a.goal < g.size)
    (hv : v < g.size) :
    TellsBelow w.ticks (g.distance a.initial v) (entry distanceFromInitial? w v) ∧
      TellsBelow w.ticks (g.distance v a.goal) (entry distanceToGoal? w v) := by
  obtain ⟨hinitial, hgoal⟩ := h.exact ha
  constructor
  · exact ⟨fun d => (entry_eq_ok hv).trans (hinitial.known d),
      (entry_eq_ok hv).trans hinitial.unknown⟩
  · -- this sweep starts from the goal
    rw [g.distance_comm]
    exact ⟨fun d => (entry_eq_ok hv).trans (hgoal.known d), (entry_eq_ok hv).trans hgoal.unknown⟩

theorem Extension.le_foldl_ticks (calls : List Extension) (k : Nat) :
    k ≤ calls.foldl Extension.ticks k := by
  induction calls generalizing k with
  | nil => exact Nat.le_refl k
  | cons call rest ih =>
    have hcall : k ≤ call.ticks k := by
      cases call with
      | step => exact Nat.le_succ k
      | stepUntil m => exact Nat.le_max_left k (m + 1)
    exact Nat.le_trans hcall (ih (call.ticks k))

/-- After calls that amount to `k` ticks a window knows for each node its distance from the initial
node if that is below `k`, and its distance to the goal if that is. No further call changes a
distance that is known, and other calls that amount to `k` ticks make the same window. -/
theorem distances_after_calls (ha : a.initial < g.size ∧ a.goal < g.size) (calls : List Extension)
    {k : Nat} (hk : calls.foldl Extension.ticks 0 = k) :
    ∃ w, (start g a).extendBy calls = .ok w ∧
      (∀ v < g.size, TellsBelow k (g.distance a.initial v) (entry distanceFromInitial? w v) ∧
        TellsBelow k (g.distance v a.goal) (entry distanceToGoal? w v)) ∧
      (∀ more, ∃ w', w.extendBy more = .ok w' ∧ ∀ v < g.size, ∀ d : Nat,
        (entry distanceFromInitial? w v = .ok (some d) →
          entry distanceFromInitial? w' v = .ok (some d)) ∧
        (entry distanceToGoal? w v = .ok (some d) → entry distanceToGoal? w' v = .ok (some d))) ∧
      ∀ others : List Extension, others.foldl Extension.ticks 0 = k →
        (start g a).extendBy others = .ok w := by
  obtain ⟨w, hcalls, hw, hticks⟩ := exists_extendBy .start ha calls
  have hticks : w.ticks = k := hticks.trans hk
  subst hticks
  refine ⟨w, hcalls, fun v hv => hw.tellsBelow ha hv, ?_, ?_⟩
  · intro more
    obtain ⟨w', hmore, hw', hticks'⟩ := exists_extendBy hw ha more
    have hle : w.ticks ≤ w'.ticks := hticks' ▸ Extension.le_foldl_ticks more w.ticks
    refine ⟨w', hmore, fun v hv d => ?_⟩
    obtain ⟨hinitial, hgoal⟩ := hw.tellsBelow ha hv
    obtain ⟨hinitial', hgoal'⟩ := hw'.tellsBelow ha hv
    exact ⟨hinitial.lasts hinitial' hle, hgoal.lasts hgoal' hle⟩
  · intro others hothers
    obtain ⟨w', hcalls', hw', hticks'⟩ := exists_extendBy .start ha others
    have hsame : w' = w := by
      rw [hw'.eq_run, hw.eq_run, hticks']
      exact congrArg (fun k => (start g a).run k) hothers
    rw [hcalls', hsame]

/-- Two sequences of calls that make four ticks in the ring, on which node 3 is next to node 0. -/
theorem distances_after_calls_ring :
    (0 < ring.size ∧ 2 < ring.size) ∧
    [Extension.step, .stepUntil 1, .step, .stepUntil 0, .step].foldl Extension.ticks 0 = 4 ∧
    3 < ring.size ∧ 4 < ring.size ∧
    ∃ w, (start ring ⟨0, 2⟩).extendBy [.step, .stepUntil 1, .step, .stepUntil 0, .step] = .ok w ∧
      TellsBelow 4 (ring.distance 0 3) (entry distanceFromInitial? w 3) ∧
      TellsBelow 4 (ring.distance 4 2) (entry distanceToGoal? w 4) ∧
      (start ring ⟨0, 2⟩).extendBy [.stepUntil 3] = .ok w := by
  have ha : 0 < ring.size ∧ 2 < ring.size := by decide
  have hk : [Extension.step, .stepUntil 1, .step, .stepUntil 0, .step].foldl
    Extension.ticks 0 = 4 := by decide
  obtain ⟨w, hcalls, htells, _, hothers⟩ := distances_after_calls (a := ⟨0, 2⟩) ha _ hk
  exact ⟨ha, hk, by decide, by decide, w, hcalls, (htells 3 (by decide)).1,
    (htells 4 (by decide)).2, hothers [.stepUntil 3] (by decide)⟩

end Window

end AgentPaths
