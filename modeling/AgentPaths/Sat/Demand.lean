import AgentPaths.Sat.Code
import AgentPaths.Sat.Marks

/-!
What a clause demands when some literals are known to be false: nothing as long as it has two
others, its last literal when it has one, and it cannot hold when it has none.
-/
namespace AgentPaths.Sat

/-- The literals that are known to be false. -/
abbrev Falses := Marks

namespace Falses

@[inline] def has (f : Falses) (c : Code) : Bool := f.get c != 0

@[inline] def add (f : Falses) (c : Code) : Falses := f.put c 1

/-- The value of every variable whose literals are known, and true for the others. -/
@[inline] def value (f : Falses) (v : Nat) : Bool := !f.has (.positive v)

/-- Nothing false is held to be true. -/
def Agrees (f : Falses) (val : Nat → Bool) : Prop := ∀ c, f.has c = true → c.holds val = false

end Falses

inductive Demand where
  | nothing
  | literal (c : Code)
  | clash

/-- What the literals of a clause demand, `open?` being one of those before that may be true. -/
def demand (f : Falses) (open? : Option Code) : List Code → Demand
  | [] => match open? with
    | none => .clash
    | some c => .literal c
  | c :: rest =>
    if f.has c then demand f open? rest
    else match open? with
      | none => demand f (some c) rest
      | some d => if c == d then demand f open? rest else .nothing

end AgentPaths.Sat
