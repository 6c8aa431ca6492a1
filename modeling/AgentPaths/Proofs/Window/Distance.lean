import AgentPaths.Proofs.Graph.Walk
import AgentPaths.Window

/-!
What a window knows. After `k` ticks a sweep has stamped exactly the nodes at a distance below `k`,
with that distance, and its frontier holds the nodes at distance `k`; each tick moves this by one
layer. From it a window that has ticked past `m` admits a node at a time exactly when some walk of
`m` steps passes there.
-/
namespace AgentPaths

namespace Sweep

/-- After `tick` ticks from `s`: the distances below `tick` are known, and the next layer is the
frontier. -/
structure Exact (g : Graph) (s tick : Nat) (w : Sweep) : Prop where
  size : w.distances.size = g.size
  distance : ∀ v d, w.distance? v = some d ↔ d < tick ∧ g.IsDistance s d v
  frontier : ∀ v, v ∈ w.frontier ↔ g.IsDistance s tick v

theorem exact_start (g : Graph) (s : Nat) : Exact g s 0 (start g.size s) where
  size := Array.size_replicate
  distance v d := by
    simp only [distance?, start, Array.getD_eq_getD_getElem?, Array.getElem?_replicate]
    split <;> simp
  frontier v := by simp [start, Graph.IsDistance]

theorem isOpen_iff {ds : Array (Option Nat)} {v : Nat} :
    isOpen ds v = true ↔ v < ds.size ∧ ds.getD v none = none := by
  unfold isOpen
  by_cases h : v < ds.size <;> simp [h]

theorem getD_stamp (fresh : List Nat) (tick : Nat) (ds : Array (Option Nat)) (v : Nat) :
    (fresh.foldl (fun d v => d.setIfInBounds v (some tick)) ds).getD v none =
      if v ∈ fresh ∧ v < ds.size then some tick else ds.getD v none := by
  induction fresh generalizing ds with
  | nil => simp
  | cons u rest ih =>
    rw [List.foldl_cons, ih]
    simp only [Array.size_setIfInBounds, Array.getD_eq_getD_getElem?,
      Array.getElem?_setIfInBounds, List.mem_cons]
    by_cases hv : v < ds.size <;> by_cases hu : u = v <;> by_cases hr : v ∈ rest <;> grind

theorem size_stamp (fresh : List Nat) (tick : Nat) (ds : Array (Option Nat)) :
    (fresh.foldl (fun d v => d.setIfInBounds v (some tick)) ds).size = ds.size := by
  induction fresh generalizing ds with
  | nil => rfl
  | cons u rest ih => rw [List.foldl_cons, ih, Array.size_setIfInBounds]

theorem distance?_eq_none {g : Graph} {s tick v : Nat} {w : Sweep}
    (h : ∀ d, w.distance? v = some d ↔ d < tick ∧ g.IsDistance s d v) :
    w.distance? v = none ↔ ∀ d < tick, ¬ g.Walk s d v := by
  constructor
  · intro hnone d hd hwalk
    obtain ⟨e, he, hdist⟩ := hwalk.exists_isDistance
    have hsome := (h e).mpr ⟨by omega, hdist⟩
    simp [hnone] at hsome
  · intro hfar
    cases hd : w.distance? v with
    | none => rfl
    | some d =>
      obtain ⟨hlt, hdist⟩ := (h d).mp hd
      exact absurd hdist.1 (hfar d hlt)

theorem mem_frontier_advance {g : Graph} {tick v : Nat} {w : Sweep} :
    v ∈ (w.advance g tick).frontier ↔ v < g.size ∧ isOpen (w.advance g tick).distances v = true ∧
      ∃ u ∈ w.frontier.filter (isOpen w.distances), g.hasEdge v u = true := by
  unfold advance
  dsimp only
  split
  next hempty =>
    rw [List.isEmpty_iff] at hempty
    simp [hempty]
  next => simp only [List.mem_filter, List.mem_range, Bool.and_eq_true, List.any_eq_true]

namespace Exact

variable {g : Graph} {s tick : Nat} {w : Sweep}

theorem mem_fresh (h : Exact g s tick w) (hs : s < g.size) (v : Nat) :
    v ∈ w.frontier.filter (isOpen w.distances) ↔ g.IsDistance s tick v := by
  rw [List.mem_filter, h.frontier, isOpen_iff, h.size]
  exact ⟨And.left, fun hdist =>
    ⟨hdist, hdist.1.lt_size hs, (distance?_eq_none (h.distance v)).mpr hdist.2⟩⟩

theorem distance_advance (h : Exact g s tick w) (hs : s < g.size) (v d : Nat) :
    (w.advance g tick).distance? v = some d ↔ d < tick + 1 ∧ g.IsDistance s d v := by
  change (List.foldl _ w.distances _).getD v none = some d ↔ _
  rw [getD_stamp]
  split
  next hv =>
    have hfresh := (h.mem_fresh hs v).mp hv.1
    rw [Option.some.injEq]
    constructor
    · intro htick
      subst htick
      exact ⟨by omega, hfresh⟩
    · intro hd
      exact hfresh.eq hd.2
  next hv =>
    rw [show w.distances.getD v none = w.distance? v from rfl, h.distance]
    constructor
    · intro hd
      exact ⟨by omega, hd.2⟩
    · intro hd
      obtain ⟨hlt, hdist⟩ := hd
      have hne : d ≠ tick := by
        intro htick
        subst htick
        exact hv ⟨(h.mem_fresh hs v).mpr hdist, by simpa [h.size] using hdist.1.lt_size hs⟩
      exact ⟨by omega, hdist⟩

/-- A tick moves a sweep to the next layer. -/
theorem advance (h : Exact g s tick w) (hs : s < g.size) :
    Exact g s (tick + 1) (w.advance g tick) := by
  have hsize : (w.advance g tick).distances.size = g.size := (size_stamp _ _ _).trans h.size
  refine ⟨hsize, h.distance_advance hs, fun v => ?_⟩
  have hfar := distance?_eq_none (h.distance_advance hs v)
  rw [mem_frontier_advance, isOpen_iff, hsize, Graph.isDistance_succ]
  constructor
  · intro hv
    obtain ⟨_, ⟨_, hnone⟩, u, hu, he⟩ := hv
    exact ⟨fun e hle => hfar.mp hnone e (by omega), u, (h.mem_fresh hs u).mp hu,
      g.hasEdge_comm u v ▸ he⟩
  · intro hlayer
    obtain ⟨hnone, u, hu, he⟩ := hlayer
    have hv := (Graph.lt_of_hasEdge he).2
    exact ⟨hv, ⟨hv, hfar.mpr fun e hlt => hnone e (by omega)⟩, u, (h.mem_fresh hs u).mpr hu,
      g.hasEdge_comm u v ▸ he⟩

/-- Within the ticks, a node has a distance of at most `t` exactly when a walk of `t` steps reaches
it. -/
theorem exists_le_iff (h : Exact g s tick w) {t v : Nat} (ht : t < tick) :
    (∃ d ≤ t, w.distance? v = some d) ↔ g.Walk s t v := by
  constructor
  · intro hle
    obtain ⟨d, hd, hdist⟩ := hle
    exact ((h.distance v d).mp hdist).2.1.mono hd
  · intro hwalk
    obtain ⟨d, hd, hdist⟩ := hwalk.exists_isDistance
    exact ⟨d, hd, (h.distance v d).mpr ⟨by omega, hdist⟩⟩

end Exact

end Sweep

namespace Window

variable {g : Graph} {a : Agent} {w : Window g} {m : Nat}

/-- The windows of an agent: the new one, and what the ticks make of it, one by one or up to a
makespan. -/
inductive Advanced {g : Graph} (a : Agent) : Window g → Prop
  | start : Advanced a (Window.start g a)
  | step {w w' : Window g} : Advanced a w → w.step = .ok w' → Advanced a w'
  | stepUntil {w w' : Window g} {m : Nat} : Advanced a w → w.stepUntil m = .ok w' → Advanced a w'

theorem run_succ (k : Nat) (w : Window g) : w.run (k + 1) = (w.run k).tick := by
  induction k generalizing w with
  | zero => rfl
  | succ k ih => rw [run, ih, run]

theorem run_add (j k : Nat) (w : Window g) : w.run (j + k) = (w.run j).run k := by
  induction k with
  | zero => rfl
  | succ k ih => rw [← Nat.add_assoc, run_succ, ih, run_succ]

@[simp] theorem agent_run (k : Nat) (w : Window g) : (w.run k).agent = w.agent := by
  induction k generalizing w with
  | zero => rfl
  | succ k ih => exact ih w.tick

/-- Only the number of ticks counts, not the calls that made them. -/
theorem Advanced.eq_run (h : w.Advanced a) : w = (Window.start g a).run w.ticks := by
  induction h with
  | start => rfl
  | @step w w' _ hstep ih =>
    unfold Window.step at hstep
    split at hstep
    next =>
      cases hstep
      change w.tick = (Window.start g a).run (w.ticks + 1)
      rw [run_succ, ← ih]
    next => cases hstep
  | @stepUntil w w' m _ hstep ih =>
    unfold Window.stepUntil at hstep
    split at hstep
    next =>
      cases hstep
      rw [extend, ticks_run, run_add, ← ih]
    next => cases hstep

theorem Advanced.agent_eq (h : w.Advanced a) : w.agent = a := by
  rw [h.eq_run, agent_run]
  rfl

theorem Advanced.extend (h : w.Advanced a) (ha : a.initial < g.size ∧ a.goal < g.size) (m : Nat) :
    (w.extend m).Advanced a := by
  have hin : w.Inside := by rwa [Inside, h.agent_eq]
  exact h.stepUntil (m := m) (by rw [Window.stepUntil, if_pos (Or.inr hin)])

theorem exact_run (ha : a.initial < g.size ∧ a.goal < g.size) (k : Nat) :
    ((start g a).run k).fromInitial.Exact g a.initial k ∧
      ((start g a).run k).toGoal.Exact g a.goal k := by
  induction k with
  | zero => exact ⟨Sweep.exact_start g _, Sweep.exact_start g _⟩
  | succ k ih =>
    have hticks : ((start g a).run k).ticks = k := by simp [Window.start]
    rw [run_succ]
    unfold tick
    rw [hticks]
    constructor
    · exact ih.1.advance ha.1
    · exact ih.2.advance ha.2

theorem Advanced.exact (h : w.Advanced a) (ha : a.initial < g.size ∧ a.goal < g.size) :
    w.fromInitial.Exact g a.initial w.ticks ∧ w.toGoal.Exact g a.goal w.ticks := by
  have hrun := exact_run ha w.ticks
  rwa [← h.eq_run] at hrun

/-- A window that has ticked past `m` admits what lies on a walk of `m` steps between the ends. -/
theorem Advanced.admits_iff (h : w.Advanced a) (ha : a.initial < g.size ∧ a.goal < g.size)
    (hm : m < w.ticks) {v t : Nat} : w.admits v t m = true ↔
      t ≤ m ∧ g.Walk a.initial t v ∧ g.Walk v (m - t) a.goal := by
  obtain ⟨hinitial, hgoal⟩ := h.exact ha
  by_cases ht : t ≤ m
  · have hback : g.Walk v (m - t) a.goal ↔ g.Walk a.goal (m - t) v :=
      ⟨Graph.Walk.symm, Graph.Walk.symm⟩
    rw [← hinitial.exists_le_iff (show t < w.ticks by omega), hback,
      ← hgoal.exists_le_iff (show m - t < w.ticks by omega)]
    unfold admits distanceFromInitial? distanceToGoal?
    cases w.fromInitial.distance? v <;> cases w.toGoal.distance? v <;> simp [ht, hm]
  · simp [admits, ht]

/-- Such a window reaches anything at all only if a walk of `m` steps leads from end to end. -/
theorem Advanced.reaches_iff (h : w.Advanced a) (ha : a.initial < g.size ∧ a.goal < g.size)
    (hm : m < w.ticks) : w.reaches m = true ↔ g.Walk a.initial m a.goal := by
  rw [Window.reaches_iff]
  constructor
  · intro hreaches
    obtain ⟨v, _, t, hadmits⟩ := hreaches
    obtain ⟨ht, hbefore, hafter⟩ := (h.admits_iff ha hm).mp hadmits
    exact (hbefore.trans hafter).mono (by omega)
  · intro hwalk
    exact ⟨a.initial, ha.1, 0, (h.admits_iff ha hm).mpr ⟨by omega, .start, hwalk⟩⟩

end Window

end AgentPaths
