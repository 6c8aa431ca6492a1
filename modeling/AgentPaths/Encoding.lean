import AgentPaths.Formula
import AgentPaths.Window

/-!
The formula of a problem and a makespan: its models are the collision-free journeys of that length.
The variable of `(t, a, v)` says that agent `a` is on node `v` at time `t`. Keys that a window rules
out get no variable, and the clauses are built as if those variables were false: a clause in which
one would stand negated is left out, and elsewhere it is missing from the disjunction.

No clause says that an agent is somewhere. The boundary puts every agent on its initial node, and
the moves carry it from there to some node at each later time.
-/
namespace AgentPaths

/-- The literals of the keys that have one, by time, agent and node. -/
abbrev Literals := Nat → Nat → Nat → Option Literal

def KeyTable.literals (T : KeyTable) : Literals := fun t a v => (T.find? ⟨t, a, v⟩).map .positive

namespace Encoding

variable (p : Problem)

/-- The nodes at which agent `a` has a literal at time `t`, in increasing order, each with its
literal. -/
def places (x : Literals) (t a : Nat) : List (Nat × Literal) :=
  (List.range p.graph.size).filterMap fun v => (x t a v).map fun here => (v, here)

/-- The places of every agent at the times up to `m`, listed once for all. -/
def placeTable (m : Nat) (x : Literals) : Array (Array (List (Nat × Literal))) :=
  Array.ofFn fun a : Fin p.agents.length => Array.ofFn fun t : Fin (m + 1) => places p x t a

theorem getD_placeTable {m : Nat} (x : Literals) {t a : Nat} (ht : t ≤ m)
    (ha : a < p.agents.length) : ((placeTable p m x).getD a #[]).getD t [] = places p x t a := by
  simp [placeTable, Array.getD, Nat.lt_succ_of_le ht, ha]

variable (next : Nat → List Nat) (here : Nat → Nat → List (Nat × Literal)) (m : Nat) (x : Literals)

/-- An agent on a node stays on it or moves to a node next to it. -/
def moves : List Clause :=
  (List.range p.agents.length).flatMap fun a => (List.range m).flatMap fun t =>
    (here t a).map fun (v, l) => l.neg :: (v :: next v).filterMap (x (t + 1) a)

/-- No two agents are on one node at a time. -/
def collisions : List Clause :=
  if p.agents.length < 2 then [] else
    (List.range (m + 1)).flatMap fun t => (List.range p.graph.size).flatMap fun v =>
      atMostOne ((List.range p.agents.length).filterMap fun a => x t a v)

/-- Fewer than two agents follow the rule for any number of them: it gives them no clause. -/
theorem collisions_eq : collisions p m x =
    (List.range (m + 1)).flatMap fun t => (List.range p.graph.size).flatMap fun v =>
      atMostOne ((List.range p.agents.length).filterMap fun a => x t a v) := by
  unfold collisions
  split
  next h =>
    refine (List.flatMap_eq_nil_iff.mpr fun t _ => List.flatMap_eq_nil_iff.mpr fun v _ => ?_).symm
    refine List.eq_nil_of_length_eq_zero ?_
    have hlen := List.length_filterMap_le (fun a => x t a v) (List.range p.agents.length)
    rw [List.length_range] at hlen
    rw [length_atMostOne]
    generalize ((List.range p.agents.length).filterMap fun a => x t a v).length = n at hlen
    have : n = 0 ∨ n = 1 := by omega
    rcases this with rfl | rfl <;> rfl
  next => rfl

/-- No agent is on two nodes at a time. -/
def occupancy : List Clause :=
  (List.range p.agents.length).flatMap fun a => (List.range (m + 1)).flatMap fun t =>
    atMostOne ((here t a).map Prod.snd)

/-- The clause against agent `a` going from `v` to `u` while agent `b` goes from `u` to `v`; `l`
puts agent `a` on `v` at time `t`. -/
def swapClause (t a b v : Nat) (l : Literal) (u : Nat) : Option Clause :=
  match x (t + 1) a u, x t b u, x (t + 1) b v with
  | some x₁, some x₂, some x₃ => some [l.neg, x₁.neg, x₂.neg, x₃.neg]
  | _, _, _ => none

/-- No two agents cross an edge in opposite directions at a time. -/
def swaps : List Clause :=
  (pairs (List.range p.agents.length)).flatMap fun (a, b) => (List.range m).flatMap fun t =>
    (here t a).flatMap fun (v, l) => (next v).filterMap (swapClause x t a b v l)

/-- At time `t` every agent is where `target` says, and nowhere else. -/
def placement (t : Nat) (target : Agent → Nat) : List Clause :=
  p.agents.zipIdx.flatMap fun (agent, a) => (here t a).map fun (v, l) =>
    [if v = target agent then l else l.neg]

/-- Every agent starts on its initial node and ends on its goal. -/
def boundary : List Clause := placement p here 0 Agent.initial ++ placement p here m Agent.goal

def clauses : List Clause :=
  let exits := p.graph.exits
  let next v := exits.getD v []
  let table := placeTable p m x
  let here t a := (table.getD a #[]).getD t []
  moves p next here m x ++ collisions p m x ++ occupancy p here m ++ swaps p next here m x ++
    boundary p here m

end Encoding

/-- The formula of a problem, unless an agent has no variable at all. -/
inductive Encoding where
  | built (f : Formula)
  | unreachable (agent : Nat)

namespace Encoding

/-- Which nodes an agent may be on at a time: by agent, time and node. -/
abbrev Admission := Nat → Nat → Nat → Bool

/-- Gives a variable to every admitted key of agent `a`, by time and then by node. -/
def allot (allow : Admission) (T : KeyTable) (a : Nat) : KeyTable :=
  (List.range (T.makespan + 1)).foldl (fun T t =>
    (List.range T.nodes).foldl (fun T v =>
      if allow a t v then (T.intern ⟨t, a, v⟩).2 else T) T) T

/-- The formula of a problem with variables for the admitted keys. -/
def ofAdmission (p : Problem) (m : Nat) (allow : Admission) : Formula :=
  let T := (List.range p.agents.length).foldl (allot allow)
    (KeyTable.empty m p.agents.length p.graph.size)
  ⟨T, (clauses p m T.literals).toArray⟩

/-- The keys that the windows of the agents admit. -/
def admission {g : Graph} (m : Nat) (ws : Array (Window g)) : Admission := fun a t v =>
  match ws[a]? with
  | some w => w.admits v t m
  | none => false

/-- The formula of a problem. Windows come one for each agent and in order; they are asked in turn,
until one does not know every distance up to `m` or admits nothing. Without windows every key is
admitted. -/
def build [Memory] (p : Problem) (m : Nat) (windows : Option (List (Window p.graph))) :
    Except Misuse Encoding :=
  if windows.any (·.length != p.agents.length) then .error .windowPerAgent
  else match KeyTable.lack? m p.agents.length p.graph.size with
    | some misuse => .error misuse
    | none => match windows with
      | none => .ok (.built (ofAdmission p m fun _ _ _ => true))
      | some ws => match ws.zipIdx.find? fun (w, _) => !w.reaches m with
        | none => .ok (.built (ofAdmission p m (admission m ws.toArray)))
        | some (w, a) =>
          if w.ticks ≤ m then .error (.windowShort w.ticks m) else .ok (.unreachable a)

end Encoding

end AgentPaths
