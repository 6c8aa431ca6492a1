import AgentPaths.Sat.Code
import AgentPaths.Sat.Marks

/-!
The literals that are true at a point of a search, in the order in which they became true, each with
its reason. They are taken back in the opposite order, down to some choice.
-/
namespace AgentPaths.Sat

inductive Reason where
  /-- By a choice, or whatever is chosen. -/
  | none
  /-- By clause number `number`, which has two literals, the other of which is false. -/
  | binary (other : Code) (number : Nat)
  /-- By a longer clause, whose other literals are all false. -/
  | clause (place : Nat)
deriving Inhabited

structure Trail where
  /-- By literal: 0 as long as its variable has no value, 1 if it is true, 2 if it is false. -/
  values : Marks
  /-- By variable with a value: how many choices had been made when it got the value. -/
  levels : Array Nat
  /-- By variable with a value: the reason of its true literal. -/
  reasons : Array Reason
  literals : Array Code
  /-- For every choice the number of literals that were true before. -/
  starts : Array Nat

namespace Trail

def empty (n : Nat) : Trail :=
  ⟨.start (2 * n), Array.replicate n 0, Array.replicate n .none, #[], #[]⟩

@[inline] def isTrue (t : Trail) (c : Code) : Bool := t.values.get c == 1

@[inline] def isFalse (t : Trail) (c : Code) : Bool := t.values.get c == 2

@[inline] def knows (t : Trail) (v : Nat) : Bool := t.values.get (Code.positive v) != 0

/-- The value of a variable, false if it has none. -/
@[inline] def value (t : Trail) (v : Nat) : Bool := t.isTrue (Code.positive v)

@[inline] def level (t : Trail) (v : Nat) : Nat := t.levels.getD v 0

@[inline] def reason (t : Trail) (v : Nat) : Reason := t.reasons.getD v .none

@[inline] def choices (t : Trail) : Nat := t.starts.size

def assign (t : Trail) (c : Code) (r : Reason) : Trail :=
  { t with
    values := (t.values.put c 1).put c.neg 2
    levels := t.levels.setIfInBounds c.var t.starts.size
    reasons := t.reasons.setIfInBounds c.var r
    literals := t.literals.push c }

def choose (t : Trail) (c : Code) : Trail :=
  assign { t with starts := t.starts.push t.literals.size } c .none

/-- The trail without its last literal, which is `c`. -/
def retract (t : Trail) (c : Code) : Trail :=
  { t with values := (t.values.put c 0).put c.neg 0, literals := t.literals.pop }

end Trail

end AgentPaths.Sat
