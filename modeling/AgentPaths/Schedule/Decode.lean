import AgentPaths.Formula
import AgentPaths.Schedule

/-!
Reading a schedule off an assignment: an agent is on a node when the variable of that key is true,
and a key without a variable is false. Every agent has to be on exactly one node at each time.
-/
namespace AgentPaths

inductive DecodeError where
  /-- The nodes that the agent is on at the time, if they are not exactly one. -/
  | inconsistent (agent time : Nat) (occupied : List Nat)
  | misuse (m : Misuse)
deriving DecidableEq

namespace Schedule

/-- Whether an assignment puts an agent on a node at a time. -/
def occupies (f : Formula) (values : Assignment) (k : Key) : Except Misuse Bool :=
  match f.find? k with
  | .error m => .error m
  | .ok none => .ok false
  | .ok (some l) => match l.holds? values with
    | some b => .ok b
    | none => .error .entryMissing

/-- The numbers below `count` that have to be looked at in a table for the numbers below `known`:
the first one beyond the table is a misuse already. -/
def upTo (known count : Nat) : List Nat := List.range (min count (known + 1))

/-- The one node below `nodes` that an agent is on at a time. -/
def nodeAt (f : Formula) (nodes : Nat) (values : Assignment) (agent time : Nat) :
    Except DecodeError Nat :=
  match (upTo f.table.nodes nodes).filterM fun v => occupies f values ⟨time, agent, v⟩ with
  | .error m => .error (.misuse m)
  | .ok [v] => .ok v
  | .ok occupied => .error (.inconsistent agent time occupied)

/-- What keeps the lists of a schedule from being begun, if anything does: the list of the paths
takes three words for each agent, and every agent has a path of `m` steps, a word for each node. -/
def lack? [Memory] (m agents : Nat) : Option Misuse :=
  (Memory.lack? (24 * agents)).or (if agents = 0 then none else Memory.lack? (8 * (m + 1)))

/-- The lists of a schedule can be begun. -/
def HasRoom [Memory] (m agents : Nat) : Prop := lack? m agents = none

instance [Memory] (m agents : Nat) : Decidable (HasRoom m agents) :=
  inferInstanceAs (Decidable (_ = _))

/-- The schedule of the agents below `agents` on the nodes below `nodes`; the first fault is
reported, by agent and then by time. Room for the lists is made first. -/
def decode [Memory] (f : Formula) (agents nodes : Nat) (values : Assignment) :
    Except DecodeError Schedule :=
  match lack? f.makespan agents with
  | some misuse => .error (.misuse misuse)
  | none => do
    let paths ← (upTo f.table.agents agents).mapM fun a =>
      (List.range (f.makespan + 1)).mapM fun t => nodeAt f nodes values a t
    return ⟨paths⟩

end Schedule

end AgentPaths
