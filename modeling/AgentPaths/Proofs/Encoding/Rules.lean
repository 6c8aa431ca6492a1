import AgentPaths.Proofs.Encoding.Allotment
import Mathlib.Data.List.Basic

/-!
The clauses of a formula before any key has a variable. A rule is a clause whose literals name keys;
the rules of a problem and a makespan do not depend on what is admitted. All five families of
clauses come from theirs in the same way: a key without a variable is read as false. The one
exception is a rule that says where an agent starts or finishes, which is lost if that key has no
variable.
-/
namespace AgentPaths

/-- A literal that names its variable by the key. -/
structure KeyLiteral where
  key : Key
  negated : Bool
deriving DecidableEq

/-- A clause that names its variables by their keys. -/
abbrev Rule := List KeyLiteral

namespace KeyLiteral

/-- At time `t` agent `a` is on `v`. -/
def here (t a v : Nat) : KeyLiteral := ⟨⟨t, a, v⟩, false⟩

/-- At time `t` agent `a` is not on `v`. -/
def away (t a v : Nat) : KeyLiteral := ⟨⟨t, a, v⟩, true⟩

end KeyLiteral

open KeyLiteral (here away)

namespace Rule

def holds (stands : Key → Bool) (r : Rule) : Bool := r.any fun l => stands l.key != l.negated

/-- The clause of a rule, unless a key without a variable stands negated in it. -/
def clause? (x : Literals) : Rule → Option Clause
  | [] => some []
  | l :: rest => match x l.key.time l.key.agent l.key.node with
    | some y => (clause? x rest).map fun c => (if l.negated then y.neg else y) :: c
    | none => if l.negated then none else clause? x rest

end Rule

/-- Where a valuation puts the agents: a key without a literal is false. -/
def Literals.stands (x : Literals) (val : Nat → Bool) (k : Key) : Bool :=
  match x k.time k.agent k.node with
  | some y => y.holds val
  | none => false

namespace Rule

variable {x : Literals} {val : Nat → Bool}

theorem clause?_map_here (t a : Nat) (vs : List Nat) :
    clause? x (vs.map (here t a)) = some (vs.filterMap (x t a)) := by
  induction vs with
  | nil => rfl
  | cons v vs ih =>
    rw [List.map_cons, clause?, ih]
    simp only [here]
    cases hv : x t a v <;> simp [hv]

/-- A clause says of a valuation what its rule says of the places; a rule without a clause says
nothing. -/
theorem all_clause? (r : Rule) : (r.clause? x).all (·.holds val) = r.holds (x.stands val) := by
  induction r with
  | nil => rfl
  | cons l rest ih =>
    have hrest : holds (x.stands val) (l :: rest) =
        ((x.stands val l.key != l.negated) || holds (x.stands val) rest) := rfl
    rw [hrest, ← ih, clause?, Literals.stands]
    cases x l.key.time l.key.agent l.key.node <;> cases hneg : l.negated <;>
      cases clause? x rest <;> simp [Clause.holds]

theorem satisfies_clauses {rs : List Rule} : Satisfies val (rs.filterMap (clause? x)) ↔
    ∀ r ∈ rs, r.holds (x.stands val) = true := by
  simp only [Satisfies, List.mem_filterMap, ← all_clause?]
  constructor
  · intro h r hr
    cases hc : clause? x r with
    | none => rfl
    | some c => exact h c ⟨r, hr, hc⟩
  · intro h c hmem
    obtain ⟨r, hr, hc⟩ := hmem
    simpa [hc] using h r hr

end Rule

namespace Encoding

variable (p : Problem) (m : Nat)

/-- The other nodes next to a node, in increasing order. -/
def exitsFrom (g : Graph) (v : Nat) : List Nat := (g.neighbours v).filter (· != v)

def moveRules : List Rule :=
  (List.range p.agents.length).flatMap fun a => (List.range m).flatMap fun t =>
    (List.range p.graph.size).map fun v =>
      away t a v :: (v :: exitsFrom p.graph v).map (here (t + 1) a)

def collisionRules : List Rule :=
  (List.range (m + 1)).flatMap fun t => (List.range p.graph.size).flatMap fun v =>
    (pairs (List.range p.agents.length)).map fun (a, b) => [away t a v, away t b v]

def occupancyRules : List Rule :=
  (List.range p.agents.length).flatMap fun a => (List.range (m + 1)).flatMap fun t =>
    (pairs (List.range p.graph.size)).map fun (u, v) => [away t a u, away t a v]

def swapRules : List Rule :=
  (pairs (List.range p.agents.length)).flatMap fun (a, b) => (List.range m).flatMap fun t =>
    (List.range p.graph.size).flatMap fun v => (exitsFrom p.graph v).map fun u =>
      [away t a v, away (t + 1) a u, away t b u, away (t + 1) b v]

def placementRules (t : Nat) (target : Agent → Nat) : List Rule :=
  p.agents.zipIdx.flatMap fun (agent, a) => (List.range p.graph.size).map fun v =>
    [⟨⟨t, a, v⟩, v != target agent⟩]

/-- The rules of a problem and a makespan, in the order of the clauses. -/
def rules : List Rule :=
  moveRules p m ++ collisionRules p m ++ occupancyRules p m ++ swapRules p m ++
    (placementRules p 0 Agent.initial ++ placementRules p m Agent.goal)

variable {p m} {x : Literals}

theorem map_places {β : Type} (f : Nat × Literal → β) (t a : Nat) : (places p x t a).map f =
    (List.range p.graph.size).filterMap fun v => (x t a v).map fun l => f (v, l) := by
  simp [places, List.map_filterMap, Option.map_map, Function.comp_def]

theorem flatMap_places {β : Type} (f : Nat × Literal → List β) (t a : Nat) :
    (places p x t a).flatMap f = (List.range p.graph.size).flatMap fun v =>
      (x t a v).elim [] fun l => f (v, l) := by
  unfold places
  induction List.range p.graph.size with
  | nil => rfl
  | cons v vs ih => cases hv : x t a v <;> simp [hv, ih]

theorem atMostOne_filterMap {α : Type} (f : α → Option Literal) (l : List α) :
    atMostOne (l.filterMap f) = (pairs l).filterMap fun (a, b) =>
      (f a).bind fun y => (f b).map fun z => [y.neg, z.neg] := by
  rw [atMostOne, pairs_map, List.map_map, pairs_filterMap, List.map_filterMap]
  apply List.filterMap_congr
  intro ab _
  obtain ⟨a, b⟩ := ab
  cases ha : f a <;> cases hb : f b <;> simp [ha, hb]

/-- `here` lists the places of the agents, as far as the encoding asks it. -/
def ListsPlaces (p : Problem) (m : Nat) (x : Literals) (here : Nat → Nat → List (Nat × Literal)) :
    Prop := ∀ t ≤ m, ∀ a < p.agents.length, here t a = places p x t a

theorem listsPlaces_table (p : Problem) (m : Nat) (x : Literals) :
    ListsPlaces p m x fun t a => ((placeTable p m x).getD a #[]).getD t [] :=
  fun _ ht _ ha => getD_placeTable p x ht ha

section Families

variable {places' : Nat → Nat → List (Nat × Literal)} (h : ListsPlaces p m x places')
include h

theorem moves_eq : moves p (exitsFrom p.graph) places' m x =
    (moveRules p m).filterMap (Rule.clause? x) := by
  simp only [moves, moveRules, List.filterMap_flatMap, List.filterMap_map]
  apply List.flatMap_congr
  intro a ha
  apply List.flatMap_congr
  intro t ht
  rw [List.mem_range] at ha ht
  rw [h t (by omega) a ha, map_places]
  apply List.filterMap_congr
  intro v _
  simp only [Function.comp_apply, Rule.clause?, Rule.clause?_map_here, away]
  cases x t a v <;> simp

theorem occupancy_eq : occupancy p places' m = (occupancyRules p m).filterMap (Rule.clause? x) := by
  simp only [occupancy, occupancyRules, List.filterMap_flatMap, List.filterMap_map]
  apply List.flatMap_congr
  intro a ha
  apply List.flatMap_congr
  intro t ht
  rw [List.mem_range] at ha ht
  rw [h t (by omega) a ha, map_places]
  simp only [Option.map_id', atMostOne_filterMap]
  apply List.filterMap_congr
  intro uv _
  simp only [Function.comp_apply, Rule.clause?, away]
  cases x t a uv.1 <;> cases x t a uv.2 <;> simp

theorem swaps_eq : swaps p (exitsFrom p.graph) places' m x =
    (swapRules p m).filterMap (Rule.clause? x) := by
  simp only [swaps, swapRules, List.filterMap_flatMap, List.filterMap_map]
  apply List.flatMap_congr
  intro ab hab
  apply List.flatMap_congr
  intro t ht
  have hlt := mem_pairs_range.mp hab
  rw [List.mem_range] at ht
  rw [h t (by omega) ab.1 (by omega), flatMap_places]
  apply List.flatMap_congr
  intro v _
  cases hv : x t ab.1 v with
  | none => simp [Rule.clause?, away, hv]
  | some l =>
    apply List.filterMap_congr
    intro u _
    simp only [Function.comp_apply, Rule.clause?, swapClause, away, hv]
    cases x (t + 1) ab.1 u <;> cases x t ab.2 u <;> cases x (t + 1) ab.2 v <;> simp

/-- A rule that says where an agent starts or finishes has its clause only if that key has a
literal. -/
theorem placement_eq {t : Nat} {target : Agent → Nat} (ht : t ≤ m)
    (htarget : ∀ i a, p.agents[i]? = some a → (x t i (target a)).isSome) :
    placement p places' t target = (placementRules p t target).filterMap (Rule.clause? x) := by
  simp only [placement, placementRules, List.filterMap_flatMap, List.filterMap_map]
  apply List.flatMap_congr
  intro ai hai
  have hi := List.mem_zipIdx_iff_getElem?.mp hai
  rw [h t ht ai.2 (List.getElem?_eq_some_iff.mp hi).1, map_places]
  apply List.filterMap_congr
  intro v _
  simp only [Function.comp_apply, Rule.clause?]
  by_cases hv : v = target ai.1
  · subst hv
    obtain ⟨y, hy⟩ := Option.isSome_iff_exists.mp (htarget ai.2 ai.1 hi)
    simp [hy]
  · cases x t ai.2 v <;> simp [hv]

end Families

theorem collisions_eq_rules :
    collisions p m x = (collisionRules p m).filterMap (Rule.clause? x) := by
  simp only [collisions_eq, collisionRules, List.filterMap_flatMap, List.filterMap_map,
    atMostOne_filterMap]
  apply List.flatMap_congr
  intro t _
  apply List.flatMap_congr
  intro v _
  apply List.filterMap_congr
  intro ab _
  simp only [Function.comp_apply, Rule.clause?, away]
  cases x t ab.1 v <;> cases x t ab.2 v <;> simp

/-- Every agent has a literal where it starts and where it finishes. -/
def EndsKnown (p : Problem) (m : Nat) (x : Literals) : Prop :=
  ∀ i a, p.agents[i]? = some a → (x 0 i a.initial).isSome ∧ (x m i a.goal).isSome

/-- The clauses of the encoding are those of the rules. -/
theorem clauses_eq (h : EndsKnown p m x) :
    clauses p m x = (rules p m).filterMap (Rule.clause? x) := by
  have hexits : (fun v => p.graph.exits.getD v []) = exitsFrom p.graph :=
    funext fun v => p.graph.getD_exits v
  have hplaces := listsPlaces_table p m x
  unfold clauses boundary
  dsimp only
  rw [hexits, moves_eq hplaces, collisions_eq_rules, occupancy_eq hplaces, swaps_eq hplaces,
    placement_eq hplaces (Nat.zero_le m) fun i a hi => (h i a hi).1,
    placement_eq hplaces (Nat.le_refl m) fun i a hi => (h i a hi).2]
  simp only [rules, List.filterMap_append]

end Encoding

end AgentPaths
