import AgentPaths.Misuse

/-!
Cancellation tokens. A token is a view of a flag that only ever goes from clear to set; its clones
see the same flag. A flag can also be given deadlines. Time passes only while someone waits, so a
deadline never takes effect between two other actions.
-/
namespace AgentPaths

structure Flag where
  isSet : Bool
  /-- The times, in milliseconds, at which the flag becomes set. -/
  deadlines : List Nat
deriving DecidableEq

namespace Flag

def clear : Flag := ⟨false, []⟩

def later (f : Flag) (now : Nat) : Flag :=
  ⟨f.isSet || f.deadlines.any (· ≤ now), f.deadlines.filter (now < ·)⟩

/-- How long a wait for the flag takes from `now` on, if no wait is longer than `limit`. -/
def delay (f : Flag) (now limit : Nat) : Nat :=
  if f.isSet then 0 else f.deadlines.foldl (fun d t => min d (t - now)) limit

end Flag

/-- Tokens, each with the number of its flag, and the time. -/
structure Tokens where
  owners : List Nat
  flags : List Flag
  now : Nat
  owned : ∀ k ∈ owners, k < flags.length

namespace Tokens

def start : Tokens := ⟨[0], [.clear], 0, by decide⟩

def create (s : Tokens) : Tokens where
  owners := s.owners ++ [s.flags.length]
  flags := s.flags ++ [.clear]
  now := s.now
  owned k hk := by
    rw [List.mem_append, List.mem_singleton] at hk
    rw [List.length_append, List.length_singleton]
    rcases hk with hk | rfl
    · exact Nat.lt_succ_of_lt (s.owned k hk)
    · exact Nat.lt_succ_self _

def owner (s : Tokens) (i : Nat) : Except Misuse (Fin s.flags.length) :=
  match h : s.owners[i]? with
  | some k => .ok ⟨k, s.owned k (List.mem_of_getElem? h)⟩
  | none => .error .entryMissing

def flag (s : Tokens) (i : Nat) : Except Misuse Flag := (s.owner i).map s.flags.get

def clone (s : Tokens) (i : Nat) : Except Misuse Tokens :=
  (s.owner i).map fun k => { s with
    owners := s.owners ++ [k.val]
    owned := by
      intro x hx
      rcases List.mem_append.mp hx with hx | hx
      · exact s.owned x hx
      · exact List.mem_singleton.mp hx ▸ k.isLt }

def isCancelled (s : Tokens) (i : Nat) : Except Misuse Bool := (s.flag i).map Flag.isSet

/-- The tokens at some time, with every flag changed. -/
def mapFlags (s : Tokens) (g : Nat → Flag → Flag) (now : Nat) : Tokens where
  owners := s.owners
  flags := s.flags.mapIdx g
  now
  owned := by simpa using s.owned

def modify (s : Tokens) (i : Nat) (g : Flag → Flag) : Except Misuse Tokens :=
  (s.owner i).map fun k => s.mapFlags (fun x f => if x = k.val then g f else f) s.now

def cancel (s : Tokens) (i : Nat) : Except Misuse Tokens :=
  s.modify i fun f => { f with isSet := true }

/-- Sets the flag of token `i` once `budget` milliseconds have passed. -/
def cancelAfter (s : Tokens) (i budget : Nat) : Except Misuse Tokens :=
  s.modify i fun f => { f with deadlines := (s.now + budget) :: f.deadlines }

/-- Lets time pass until the flag of token `i` is set, but no longer than `limit` milliseconds. -/
def wait (s : Tokens) (i limit : Nat) : Except Misuse Tokens :=
  (s.flag i).map fun f =>
    let now := s.now + f.delay s.now limit
    s.mapFlags (fun _ f => f.later now) now

/-- What can be done with tokens, the budgets and limits in milliseconds. -/
inductive Action where
  | create
  | clone (i : Nat)
  | cancel (i : Nat)
  | cancelAfter (i budget : Nat)
  | wait (i limit : Nat)
deriving DecidableEq

def perform (s : Tokens) : Action → Except Misuse Tokens
  | .create => .ok s.create
  | .clone i => s.clone i
  | .cancel i => s.cancel i
  | .cancelAfter i budget => s.cancelAfter i budget
  | .wait i limit => s.wait i limit

end Tokens

end AgentPaths
