import AgentPaths.Sat.Trail

/-!
Clauses in a form in which those are found at once that a new true literal makes short. A clause of
two literals is kept as two implications. A longer one is watched at its first two literals: while
neither of them is false it demands nothing, so that it is only looked at when one of them becomes
false. Every clause has a number.
-/
namespace AgentPaths.Sat

structure Store where
  /-- The longer clauses, one after the other, each behind its number and the number of its
  literals. -/
  cells : Array Nat
  /-- By literal: the literals that are true if it is, each before the number of its clause. -/
  implied : Array (Array Nat)
  /-- By literal: the places of the clauses that are watched at it, each before another of its
  literals. -/
  watching : Array (Array Nat)

namespace Store

/-- The store without clauses, for variables below `n`. -/
def empty (n : Nat) : Store := ⟨#[], Array.replicate (2 * n) #[], Array.replicate (2 * n) #[]⟩

@[inline] def number (cells : Array Nat) (place : Nat) : Nat := cells.getD place 0

@[inline] def width (cells : Array Nat) (place : Nat) : Nat := cells.getD (place + 1) 0

/-- Lists `a` before `b` at the literal `c`. -/
@[inline] def list (lists : Array (Array Nat)) (c : Code) (a b : Nat) : Array (Array Nat) :=
  lists.modify c fun l => (l.push a).push b

def addBinary (s : Store) (number : Nat) (a b : Code) : Store :=
  { s with implied := list (list s.implied a.neg b number) b.neg a number }

/-- The store with a clause that begins with `a` and `b` and has other literals. -/
def addLong (s : Store) (number : Nat) (a b : Code) (rest : List Code) : Store :=
  let ⟨cells, implied, watching⟩ := s
  let place := cells.size
  ⟨rest.foldl Array.push ((((cells.push number).push (rest.length + 2)).push a).push b), implied,
    list (list watching a place b) b place a⟩

end Store

end AgentPaths.Sat
