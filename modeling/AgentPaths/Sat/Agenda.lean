import AgentPaths.Sat.Trail

/-!
The order in which variables are chosen. All variables stand in a line, and the first one without a
value is chosen. A variable can be put first; to find the first one without a value soon, a place in
the line is remembered before which all variables have values.
-/
namespace AgentPaths.Sat

/-- The line of the variables below `n`; the number `n` stands for its ends. -/
structure Agenda where
  /-- By variable: its neighbour toward the beginning. -/
  before : Array Nat
  /-- By variable: its neighbour toward the end. -/
  after : Array Nat
  /-- By variable: when it was put first; the stamps fall along the line. -/
  stamps : Array Nat
  first : Nat
  /-- All variables before this one have values. -/
  cursor : Nat
  clock : Nat
  /-- By variable: 1 if true is to be tried first. -/
  signs : Marks

namespace Agenda

/-- The line in the order of the variables, with false first. -/
def start (n : Nat) : Agenda where
  before := Array.ofFn fun v : Fin n => if v.val = 0 then n else v - 1
  after := Array.ofFn fun v : Fin n => v + 1
  stamps := Array.ofFn fun v : Fin n => n - v
  first := 0
  cursor := 0
  clock := n + 1
  signs := .start n

@[inline] def stamp (a : Agenda) (v : Nat) : Nat := a.stamps.getD v 0

/-- Puts a variable first. -/
def favour (a : Agenda) (t : Trail) (v : Nat) : Agenda :=
  if a.first == v then a
  else
    let n := a.before.size
    let b := a.before.getD v n
    let c := a.after.getD v n
    { a with
      before := ((a.before.setIfInBounds c b).setIfInBounds a.first v).setIfInBounds v n
      after := (a.after.setIfInBounds b c).setIfInBounds v a.first
      stamps := a.stamps.setIfInBounds v a.clock
      first := v
      cursor :=
        if !t.knows v then v
        else if a.cursor == v then (if c < n then c else b)
        else a.cursor
      clock := a.clock + 1 }

/-- A variable has lost its value. -/
@[inline] def release (a : Agenda) (v : Nat) : Agenda :=
  if a.stamp a.cursor < a.stamp v then { a with cursor := v } else a

/-- The first variable without a value among the next `k`, if there is one. -/
def seek (after : Array Nat) (t : Trail) : Nat → Nat → Option Nat
  | 0, _ => none
  | k + 1, v =>
    if v < after.size then if t.knows v then seek after t k (after.getD v after.size) else some v
    else none

def next? (a : Agenda) (t : Trail) : Option Nat := seek a.after t (a.after.size + 1) a.cursor

def literal (a : Agenda) (v : Nat) : Code :=
  .ofValue v (a.signs.get v == 1)

end Agenda

end AgentPaths.Sat
