/-!
Calls outside the contract of the operation that is called. A defect of the data is reported to the
user; a misuse is a mistake of the caller, and the operation gives no answer at all. Memory that has
run out is told from the mistakes: it does not just end the operation.
-/
namespace AgentPaths

inductive Misuse where
  | graphTooLarge (count : Nat)
  | edgeOutside (u v size : Nat)
  | keyOutside (time agent node times agents nodes : Nat)
  | keyUnknown (time agent node : Nat)
  | timeBeyond (time makespan : Nat)
  | windowShort (ticks makespan : Nat)
  | windowPerAgent
  /-- An assignment, a table of distances or a list of tokens is asked for an entry that it
  lacks. -/
  | entryMissing
  /-- A table, a list or a number is larger than can be handled. -/
  | tooLarge
  /-- The memory for a table or a list, which could be addressed, cannot be had. -/
  | outOfMemory
deriving DecidableEq

/-- The sentence that reports a misuse; a missing entry, a size that is too large and memory that
has run out have none. -/
def Misuse.message? : Misuse → Option String
  | graphTooLarge count => some s!"a graph of {count} nodes is too large"
  | edgeOutside u v size => some s!"edge ({u}, {v}) queried on a graph of {size} nodes"
  | keyOutside time agent node times agents nodes =>
    some (s!"variable key (t={time}, a={agent}, v={node}) outside a context of {times} steps, " ++
      s!"{agents} agents and {nodes} nodes")
  | keyUnknown time agent node =>
    some s!"no variable was created for (t={time}, a={agent}, v={node})"
  | timeBeyond time makespan => some s!"time {time} is beyond makespan {makespan}"
  | windowShort ticks makespan =>
    some s!"window advanced to {ticks} but queried at makespan {makespan}"
  | windowPerAgent => some "one reachability window per agent is required"
  | entryMissing => none
  | tooLarge => none
  | outOfMemory => none

end AgentPaths
