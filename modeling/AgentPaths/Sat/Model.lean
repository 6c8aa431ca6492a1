import AgentPaths.Sat.Branching
import AgentPaths.Sat.Search
import Std.Data.HashMap
import Std.Data.TreeSet

/-!
Models of clauses over any variables. The variables are numbered anew in their order, so that
nothing is kept for a variable that no clause has. Whatever an exploration finds is looked at again
before it counts. It is much faster than the search in a fixed order, which only takes over should
the exploration come to nothing.
-/
namespace AgentPaths.Sat

/-- Values of the variables below `n` with which the clauses hold, if there are any. -/
def values? (n : Nat) (cs : List (List Code)) : Option (Nat → Bool) :=
  let first := fun _ : Unit => (Index.ofClauses n cs).least?.map Falses.value
  match explore n cs with
  | .model t => if cs.all fun c => c.any (Code.holds t.value) then some t.value else first ()
  | .refuted steps => if (Ledger.start n cs).refutes steps then none else first ()
  | .lost => first ()

/-- The first values of the variables below `n` with which the clauses hold. That there are none
mostly shows sooner in an exploration. -/
def leastValues? (n : Nat) (cs : List (List Code)) : Option (Nat → Bool) :=
  (values? n cs).bind fun _ => (Index.ofClauses n cs).least?.map Falses.value

/-- The variables of clauses, in order. -/
def vars (cs : List (List Code)) : List Nat :=
  (cs.foldl (fun vs c => c.foldl (fun vs l => vs.insert l.var) vs) (∅ : Std.TreeSet Nat)).toList

/-- The place of a number in a list, as far as it is there. -/
def places (vs : List Nat) : Std.HashMap Nat Nat := .ofList vs.zipIdx

def rank (places : Std.HashMap Nat Nat) (v : Nat) : Nat := places.getD v 0

/-- The literal of the place of its variable. -/
def compact (places : Std.HashMap Nat Nat) (l : Code) : Code :=
  .ofValue (rank places l.var) l.isPositive

/-- The literals of the variables of clauses, with values that are found for their places. -/
def literals? (find? : Nat → List (List Code) → Option (Nat → Bool)) (cs : List (List Code)) :
    Option (List Code) :=
  let vs := vars cs
  let places := places vs
  (find? vs.length (cs.map (·.map (compact places)))).map fun val =>
    vs.map fun v => .ofValue v (val (rank places v))

/-- The literals of all variables of clauses that are true in some model, if there is one. -/
def model? (cs : List (List Code)) : Option (List Code) := literals? values? cs

/-- Those that are true in the first model. -/
def leastModel? (cs : List (List Code)) : Option (List Code) := literals? leastValues? cs

end AgentPaths.Sat
