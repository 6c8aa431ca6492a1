import AgentPaths.Schedule

/-!
Walks of a given number of steps, in which a step follows an edge or stays where it is. Since a walk
may wait, the walks of at most `t` edges are the walks of exactly `t` steps; shortest distances come
out as the least number of steps.

A journey is a walk with its nodes written down. Journeys that meet are joined to one, so that a
node lies on some journey at a time exactly when it can be reached and left in time.
-/
namespace AgentPaths.Graph

/-- `g.Walk u t v`: some walk of `t` steps leads from `u` to `v`. -/
inductive Walk (g : Graph) (u : Nat) : Nat → Nat → Prop
  | start : Walk g u 0 u
  | wait {t v : Nat} : Walk g u t v → Walk g u (t + 1) v
  | move {t v w : Nat} : Walk g u t v → g.hasEdge v w = true → Walk g u (t + 1) w

variable {g : Graph} {u v w s t : Nat}

@[simp] theorem walk_zero : g.Walk u 0 v ↔ v = u := by
  constructor
  · intro h
    cases h
    rfl
  · intro h
    exact h ▸ .start

theorem walk_succ : g.Walk u (t + 1) w ↔ ∃ v, g.Walk u t v ∧ (v = w ∨ g.hasEdge v w = true) := by
  constructor
  · intro h
    cases h with
    | wait h => exact ⟨w, h, Or.inl rfl⟩
    | move h he => exact ⟨_, h, Or.inr he⟩
  · intro hlast
    obtain ⟨v, h, hstep⟩ := hlast
    rcases hstep with rfl | he
    · exact h.wait
    · exact h.move he

namespace Walk

theorem mono (h : g.Walk u s v) (hst : s ≤ t) : g.Walk u t v := by
  obtain ⟨k, rfl⟩ := Nat.exists_eq_add_of_le hst
  clear hst
  induction k with
  | zero => exact h
  | succ k ih => exact ih.wait

theorem trans (h : g.Walk u s v) (h' : g.Walk v t w) : g.Walk u (s + t) w := by
  induction h' with
  | start => exact h
  | wait _ ih => exact ih.wait
  | move _ he ih => exact ih.move he

theorem symm (h : g.Walk u t v) : g.Walk v t u := by
  induction h with
  | start => exact .start
  | wait _ ih => exact ih.wait
  | @move t v w _ he ih =>
    -- the last edge becomes the first one
    have hfirst : g.Walk w 1 v := Walk.start.move (by rwa [hasEdge_comm])
    exact (hfirst.trans ih).mono (by omega)

/-- A walk has a first step as it has a last one. -/
theorem exists_first (h : g.Walk u (t + 1) w) :
    ∃ v, (v = u ∨ g.hasEdge u v = true) ∧ g.Walk v t w := by
  obtain ⟨v, hv, hstep⟩ := walk_succ.mp h.symm
  exact ⟨v, hasEdge_comm g u v ▸ hstep, hv.symm⟩

theorem lt_size (h : g.Walk u t v) (hu : u < g.size) : v < g.size := by
  induction h with
  | start => exact hu
  | wait _ ih => exact ih
  | move _ he _ => exact (lt_of_hasEdge he).2

end Walk

/-- `v` is `d` edges away from `u`, and no fewer. -/
def IsDistance (g : Graph) (u d v : Nat) : Prop := g.Walk u d v ∧ ∀ e < d, ¬ g.Walk u e v

theorem IsDistance.eq {d e : Nat} (h : g.IsDistance u d v) (h' : g.IsDistance u e v) : d = e := by
  apply Nat.le_antisymm
  · exact Nat.le_of_not_lt fun hlt => h.2 e hlt h'.1
  · exact Nat.le_of_not_lt fun hlt => h'.2 d hlt h.1

theorem Walk.exists_isDistance (h : g.Walk u t v) : ∃ d ≤ t, g.IsDistance u d v := by
  induction t using Nat.strongRecOn with
  | ind t ih =>
    by_cases hless : ∃ e < t, g.Walk u e v
    · obtain ⟨e, he, hwalk⟩ := hless
      obtain ⟨d, hd, hdist⟩ := ih e he hwalk
      exact ⟨d, by omega, hdist⟩
    · exact ⟨t, Nat.le_refl t, h, fun e he hwalk => hless ⟨e, he, hwalk⟩⟩

/-- The next layer: nodes next to a node at distance `d` that have no distance up to `d`. -/
theorem isDistance_succ {d : Nat} : g.IsDistance u (d + 1) w ↔
    (∀ e ≤ d, ¬ g.Walk u e w) ∧ ∃ v, g.IsDistance u d v ∧ g.hasEdge v w = true := by
  constructor
  · intro h
    obtain ⟨hwalk, hleast⟩ := h
    refine ⟨fun e he => hleast e (by omega), ?_⟩
    obtain ⟨v, hv, hstep⟩ := walk_succ.mp hwalk
    rcases hstep with rfl | he
    · exact absurd hv (hleast d (by omega))
    · exact ⟨v, ⟨hv, fun e hed hwalk' => hleast (e + 1) (by omega) (hwalk'.move he)⟩, he⟩
  · intro h
    obtain ⟨hnone, v, hv, he⟩ := h
    exact ⟨hv.1.move he, fun e hed => hnone e (by omega)⟩

end AgentPaths.Graph

namespace AgentPaths

namespace IsJourney

variable {g : Graph} {m : Nat} {a : Agent} {path : List Nat}

/-- Every stretch of a journey is a walk. -/
theorem walk (h : IsJourney g m a path) {i k u v : Nat} (hu : path[i]? = some u)
    (hv : path[i + k]? = some v) : g.Walk u k v := by
  induction k generalizing v with
  | zero =>
    rw [Nat.add_zero, hu] at hv
    cases hv
    exact .start
  | succ k ih =>
    have hlt : i + k < path.length := by
      have := (List.getElem?_eq_some_iff.mp hv).1
      omega
    have hmid := List.getElem?_eq_getElem hlt
    rw [Graph.walk_succ]
    exact ⟨_, ih hmid, h.steps _ _ _ hmid hv⟩

variable {s t u v w : Nat} {front back : List Nat}

theorem stay (g : Graph) (u : Nat) : IsJourney g 0 ⟨u, u⟩ [u] := by
  refine ⟨rfl, rfl, rfl, ?_⟩
  intro t x y _ hy
  simp at hy

theorem single (h : u = v ∨ g.hasEdge u v = true) : IsJourney g 1 ⟨u, v⟩ [u, v] := by
  refine ⟨rfl, rfl, rfl, ?_⟩
  intro t x y hx hy
  cases t with
  | zero =>
    cases hx
    cases hy
    exact h
  | succ t => simp at hy

/-- The node on which two journeys meet is counted once. -/
def join (front back : List Nat) : List Nat := front ++ back.tail

theorem join_of_le (hf : IsJourney g s ⟨u, v⟩ front) {i : Nat} (hi : i ≤ s) :
    (join front back)[i]? = front[i]? := by
  have hlt : i < front.length := by
    rw [hf.length]
    omega
  exact List.getElem?_append_left hlt

theorem join_add (hf : IsJourney g s ⟨u, v⟩ front) (hb : IsJourney g t ⟨v, w⟩ back) (i : Nat) :
    (join front back)[s + i]? = back[i]? := by
  cases i with
  | zero => rw [Nat.add_zero, hf.join_of_le (Nat.le_refl s), hf.finish, hb.start]
  | succ i =>
    rw [join, List.getElem?_append_right (by rw [hf.length]; omega), hf.length, List.getElem?_tail]
    congr 1
    omega

theorem append (hf : IsJourney g s ⟨u, v⟩ front) (hb : IsJourney g t ⟨v, w⟩ back) :
    IsJourney g (s + t) ⟨u, w⟩ (join front back) := by
  refine ⟨?_, ?_, ?_, ?_⟩
  · rw [join, List.length_append, List.length_tail, hf.length, hb.length]
    omega
  · rw [hf.join_of_le (Nat.zero_le s)]
    exact hf.start
  · rw [hf.join_add hb]
    exact hb.finish
  · intro i x y hx hy
    rcases Nat.lt_or_ge i s with hi | hi
    · rw [hf.join_of_le (Nat.le_of_lt hi)] at hx
      rw [hf.join_of_le hi] at hy
      exact hf.steps i x y hx hy
    · obtain ⟨j, rfl⟩ := Nat.exists_eq_add_of_le hi
      rw [hf.join_add hb] at hx
      rw [Nat.add_assoc, hf.join_add hb] at hy
      exact hb.steps j x y hx hy

end IsJourney

theorem Graph.Walk.exists_isJourney {g : Graph} {t u v : Nat} (h : g.Walk u t v) :
    ∃ path, IsJourney g t ⟨u, v⟩ path := by
  induction h with
  | start => exact ⟨[u], .stay g u⟩
  | wait _ ih =>
    obtain ⟨path, hpath⟩ := ih
    exact ⟨_, hpath.append (.single (Or.inl rfl))⟩
  | move _ he ih =>
    obtain ⟨path, hpath⟩ := ih
    exact ⟨_, hpath.append (.single (Or.inr he))⟩

theorem exists_isJourney_through {g : Graph} {m t v : Nat} {a : Agent} :
    (∃ path, IsJourney g m a path ∧ path[t]? = some v) ↔
      t ≤ m ∧ g.Walk a.initial t v ∧ g.Walk v (m - t) a.goal := by
  constructor
  · rintro ⟨path, hpath, hv⟩
    have ht : t ≤ m := by
      have hlt := (List.getElem?_eq_some_iff.mp hv).1
      rw [hpath.length] at hlt
      omega
    have hfinish : path[t + (m - t)]? = some a.goal := by
      rw [Nat.add_sub_cancel' ht]
      exact hpath.finish
    exact ⟨ht, hpath.walk hpath.start (by rwa [Nat.zero_add]), hpath.walk hv hfinish⟩
  · rintro ⟨ht, hbefore, hafter⟩
    obtain ⟨front, hf⟩ := hbefore.exists_isJourney
    obtain ⟨back, hb⟩ := hafter.exists_isJourney
    have hjoin := hf.append hb
    rw [Nat.add_sub_cancel' ht] at hjoin
    exact ⟨_, hjoin, (hf.join_of_le (Nat.le_refl t)).trans hf.finish⟩

end AgentPaths
