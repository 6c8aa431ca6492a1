import AgentPaths.Sat.Demand

/-!
Certificates that clauses cannot be satisfied. A certificate is a list of clauses, each of which is
said to follow from those before it and names some of them as hints: if all of its literals were
false, the hints would demand one literal after the other and come to a clash. The last clause has
no literals.
-/
namespace AgentPaths.Sat

structure Step where
  clause : List Code
  /-- The numbers of the clauses that show it, in the order in which they are to be looked at. -/
  hints : List Nat

/-- The clauses that have been shown so far, and the literals that are false because of those with
one literal. -/
structure Ledger where
  clauses : Array (List Code)
  falses : Falses

namespace Ledger

def start (n : Nat) (cs : List (List Code)) : Ledger := ⟨cs.toArray, .start (2 * n)⟩

/-- Whether hints come to a clash. -/
def clashes (clauses : Array (List Code)) (f : Falses) : List Nat → Bool
  | [] => false
  | i :: rest => match clauses[i]? with
    | none => false
    | some c => match demand f none c with
      | .nothing => clashes clauses f rest
      | .literal l => clashes clauses (f.add l.neg) rest
      | .clash => true

/-- The ledger with a clause, if its hints show it. -/
def learn (L : Ledger) (s : Step) : Option Ledger :=
  let ⟨clauses, falses⟩ := L
  if clashes clauses (s.clause.foldl Falses.add falses) s.hints then
    some ⟨clauses.push s.clause, match s.clause with
      | [c] => falses.add c.neg
      | _ => falses⟩
  else none

/-- Whether a certificate leads to a clause without literals, every step being shown. -/
def refutes (L : Ledger) : List Step → Bool
  | [] => false
  | s :: rest => match L.learn s with
    | none => false
    | some L => s.clause.isEmpty || refutes L rest

end Ledger

end AgentPaths.Sat
