import AgentPaths.Problem

/-!
Reachability windows. Two breadth-first sweeps, one from each end of an agent's journey, advance by
one edge per tick. After more than `m` ticks every distance up to `m` is known, and a node is
admitted at time `t` of `m` exactly when its two distances leave enough time on either side.
-/
namespace AgentPaths

/-- A sweep from one node: the distances found so far, and the nodes that the next tick may
reach. -/
structure Sweep where
  distances : Array (Option Nat)
  frontier : List Nat

namespace Sweep

def start (n v : Nat) : Sweep := ⟨Array.replicate n none, [v]⟩

@[inline] def distance? (s : Sweep) (v : Nat) : Option Nat := s.distances.getD v none

def isOpen (distances : Array (Option Nat)) (v : Nat) : Bool := distances[v]? == some none

/-- The open nodes of the frontier get the distance `tick`; the open nodes next to them are the next
frontier. -/
def advance (g : Graph) (tick : Nat) (s : Sweep) : Sweep :=
  let fresh := s.frontier.filter (isOpen s.distances)
  let distances := fresh.foldl (fun d v => d.setIfInBounds v (some tick)) s.distances
  let frontier := if fresh.isEmpty then [] else
    (List.range g.size).filter fun v => isOpen distances v && fresh.any (g.hasEdge v)
  ⟨distances, frontier⟩

end Sweep

structure Window (g : Graph) where
  agent : Agent
  ticks : Nat
  fromInitial : Sweep
  toGoal : Sweep

namespace Window

variable {g : Graph}

def start (g : Graph) (a : Agent) : Window g :=
  ⟨a, 0, Sweep.start g.size a.initial, Sweep.start g.size a.goal⟩

def tick (w : Window g) : Window g :=
  { w with
    ticks := w.ticks + 1
    fromInitial := w.fromInitial.advance g w.ticks
    toGoal := w.toGoal.advance g w.ticks }

def run : Nat → Window g → Window g
  | 0, w => w
  | k + 1, w => run k w.tick

/-- The window with every distance up to `m` known. -/
def extend (w : Window g) (m : Nat) : Window g := w.run (m + 1 - w.ticks)

@[simp] theorem ticks_run (k : Nat) (w : Window g) : (w.run k).ticks = w.ticks + k := by
  induction k generalizing w with
  | zero => rfl
  | succ k ih =>
    rw [run, ih]
    change w.ticks + 1 + k = _
    omega

theorem lt_ticks_extend (w : Window g) (m : Nat) : m < (w.extend m).ticks := by
  rw [extend, ticks_run]
  omega

/-- Whether the journey of the agent lies inside the graph; a sweep from elsewhere cannot begin. -/
def Inside (w : Window g) : Prop := w.agent.initial < g.size ∧ w.agent.goal < g.size

instance (w : Window g) : Decidable w.Inside := inferInstanceAs (Decidable (_ ∧ _))

def step (w : Window g) : Except Misuse (Window g) :=
  if w.Inside then .ok w.tick else .error .entryMissing

/-- Ticks until every distance up to `m` is known. -/
def stepUntil (w : Window g) (m : Nat) : Except Misuse (Window g) :=
  if m < w.ticks ∨ w.Inside then .ok (w.extend m) else .error .entryMissing

@[inline] def distanceFromInitial? (w : Window g) (v : Nat) : Option Nat :=
  w.fromInitial.distance? v

@[inline] def distanceToGoal? (w : Window g) (v : Nat) : Option Nat := w.toGoal.distance? v

/-- Whether the agent can be on `v` at time `t` of `m`; a window with fewer ticks admits nothing. -/
@[inline] def admits (w : Window g) (v t m : Nat) : Bool :=
  t ≤ m && m < w.ticks &&
    match w.distanceFromInitial? v, w.distanceToGoal? v with
    | some before, some after => before ≤ t && after ≤ m - t
    | _, _ => false

/-- Whether the agent can be anywhere: a node has a distance from the initial node and one to the
goal that leave enough time for both. -/
def reaches (w : Window g) (m : Nat) : Bool :=
  decide (m < w.ticks) && (List.range g.size).any fun v =>
    match w.distanceFromInitial? v, w.distanceToGoal? v with
    | some before, some after => before + after ≤ m
    | _, _ => false

theorem reaches_iff {w : Window g} {m : Nat} :
    w.reaches m = true ↔ ∃ v < g.size, ∃ t, w.admits v t m = true := by
  unfold reaches admits
  simp only [Bool.and_eq_true, decide_eq_true_eq, List.any_eq_true, List.mem_range]
  constructor
  · rintro ⟨hm, v, hv, h⟩
    refine ⟨v, hv, ?_⟩
    split at h
    next before after hb ha =>
      have hsum := of_decide_eq_true h
      exact ⟨before, ⟨by omega, hm⟩, by
        simp only [Bool.and_eq_true, decide_eq_true_eq]
        omega⟩
    next => exact absurd h (by simp)
  · rintro ⟨v, hv, t, ⟨_, hm⟩, h⟩
    refine ⟨hm, v, hv, ?_⟩
    split at h
    next before after hb ha =>
      simp only [Bool.and_eq_true, decide_eq_true_eq] at h
      simp only [decide_eq_true_eq]
      omega
    next => exact absurd h (by simp)

/-- The answer of the window about node `v` at time `t` of `m`. -/
def accessible (w : Window g) (v t m : Nat) : Except Misuse Bool :=
  if m < t then .error (.timeBeyond t m)
  else if w.ticks ≤ m then .error (.windowShort w.ticks m)
  else if g.size ≤ v then .error .entryMissing
  else .ok (w.admits v t m)

/-- The nodes that are accessible at each of the times up to `m`. A graph without nodes asks the
window nothing. -/
def table (w : Window g) (m : Nat) : Except Misuse (List (List Nat)) :=
  if 0 < g.size ∧ w.ticks ≤ m then .error (.windowShort w.ticks m)
  else .ok ((List.range (m + 1)).map fun t => (List.range g.size).filter (w.admits · t m))

def entry (f : Window g → Nat → α) (w : Window g) (v : Nat) : Except Misuse α :=
  if v < g.size then .ok (f w v) else .error .entryMissing

end Window

end AgentPaths
