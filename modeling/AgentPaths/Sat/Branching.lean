import AgentPaths.Sat.Demand

/-!
Search in a fixed order. The variables below some number are given values one by one, false before
true, and whatever the clauses demand in between is taken in at once. The model found is the first
of all when they are compared in this order.
-/
namespace AgentPaths.Sat

/-- Clauses over the variables below `count`. -/
structure Index where
  count : Nat
  clauses : Array (List Code)
  /-- By literal: the numbers of the clauses that have it. -/
  occurrences : Array (Array Nat)

namespace Index

def ofClauses (n : Nat) (cs : List (List Code)) : Index where
  count := n
  clauses := cs.toArray
  occurrences := cs.zipIdx.foldl (fun occurrences (c, i) =>
    c.foldl (fun occurrences l => occurrences.modify l (·.push i)) occurrences)
    (Array.replicate (2 * n) #[])

/-- Takes in what the clauses with the first `k` of some numbers demand. The literals that have to
be true are put before `queue`. -/
def visit (x : Index) (numbers : Array Nat) : Nat → Falses → List Code → Option (Falses × List Code)
  | 0, f, queue => some (f, queue)
  | k + 1, f, queue => match x.clauses[numbers.getD k 0]? with
    | none => visit x numbers k f queue
    | some c => match demand f none c with
      | .nothing => visit x numbers k f queue
      | .literal l =>
        if f.has l.neg then visit x numbers k f queue
        else visit x numbers k (f.add l.neg) (l :: queue)
      | .clash => none

/-- Takes in what follows from the true literals of a queue, as long as it is not empty but in `k`
steps at most. -/
def propagate (x : Index) : Nat → Falses → List Code → Option Falses
  | 0, f, _ => some f
  | _ + 1, f, [] => some f
  | k + 1, f, c :: queue =>
    let numbers := x.occurrences.getD c.neg #[]
    match x.visit numbers numbers.size f queue with
    | none => none
    | some (f, queue) => propagate x k f queue

def assume (x : Index) (f : Falses) (c : Code) : Option Falses :=
  x.propagate (x.count + 1) (f.add c.neg) [c]

/-- Gives values to the last `k` variables. -/
def branch (x : Index) : Nat → Falses → Option Falses
  | 0, f => if x.clauses.all fun c => c.any (Code.holds f.value) then some f else none
  | k + 1, f =>
    let v := x.count - (k + 1)
    if f.has (.positive v) || f.has (.negative v) then branch x k f
    else match (x.assume f (.negative v)).bind (branch x k) with
      | some found => some found
      | none => (x.assume f (.positive v)).bind (branch x k)

/-- The first model of the clauses, if there is one. -/
def least? (x : Index) : Option Falses :=
  match x.visit (Array.range x.clauses.size) x.clauses.size (.start (2 * x.count)) [] with
  | none => none
  | some (f, queue) => (x.propagate (x.count + 1) f queue).bind (x.branch x.count)

end Index

end AgentPaths.Sat
