import AgentPaths.Encoding
import AgentPaths.Sat.Oracle
import AgentPaths.Schedule.Decode

/-!
The search for a shortest schedule: the makespans of a range are tried in increasing order, each
once, until one of them has a schedule or a cancellation is seen. A cancelled attempt says nothing
about its makespan.

Cancellation comes from outside while the search is under way. A run is given the moment at which it
comes; the token is clear before that moment and set from then on, and a moment that the run does
not reach changes nothing.
-/
namespace AgentPaths

/-- The moments at which the token can become set, as far as a run can tell them apart. -/
inductive Moment where
  /-- Before the run. -/
  | outset
  /-- Before the attempt at makespan `m` begins. -/
  | attempt (m : Nat)
  /-- After the attempt has begun, while its windows and its formula are made. -/
  | generating (m : Nat)
  /-- After the formula has been made, before the oracle is called. -/
  | solving (m : Nat)
  /-- During the call of the oracle, after it has looked at the token `looks` times. -/
  | consulting (m looks : Nat)
deriving DecidableEq

/-- When the token becomes set, if it ever does. -/
abbrev Timeline := Option Moment

/-- What the looks at a clear token see during the call for makespan `m`. -/
def Timeline.poll (t : Timeline) (m : Nat) : Poll := fun look =>
  match t with
  | some (.consulting m' looks) => m' = m && looks ≤ look
  | _ => false

/-- Whether the token becomes set during the call for makespan `m`. -/
def Timeline.duringCall (t : Timeline) (m : Nat) : Bool :=
  match t with
  | some (.consulting m' _) => m' = m
  | _ => false

inductive Verdict where
  /-- An agent has no variable; the oracle was not asked. -/
  | unreachable (agent : Nat)
  | unsatisfiable
  | satisfiable
  | cancelled
deriving DecidableEq

structure Attempt where
  makespan : Nat
  /-- The number of variables, 0 if no formula was made. -/
  varCount : Nat
  /-- The number of clauses, 0 if no formula was made. -/
  clauses : Nat
  verdict : Verdict
deriving DecidableEq

inductive Outcome where
  | solved (makespan : Nat) (schedule : Schedule)
  /-- Cancelled during the attempt at `makespan`. -/
  | aborted (makespan : Nat)
  | exhausted
deriving DecidableEq

inductive SolveError where
  | oracle (e : OracleError)
  | decode (e : DecodeError)
deriving DecidableEq

inductive Pruning where
  | reachability
  | disabled
deriving DecidableEq

structure SearchConfig where
  minMakespan : Nat
  maxMakespan : Nat
  pruning : Pruning
deriving DecidableEq

/-- Any makespan that fits into a word of 64 bits, with pruning. -/
def SearchConfig.default : SearchConfig := ⟨0, wordBound - 1, .reachability⟩

/-- What was handed to the oracle in one call. -/
structure Call where
  varCount : Nat
  clauses : List Clause

namespace Search

/-- A run under way: the windows, the attempts and calls so far, the oracle, and whether the token
is set. -/
structure State (g : Graph) (σ : Type) where
  windows : Option (List (Window g))
  attempts : Array Attempt
  calls : Array Call
  oracle : σ
  cancelled : Bool

namespace State

variable {g : Graph} {σ : Type}

def start (p : Problem) (pruning : Pruning) (timeline : Timeline) (oracle : σ) :
    State p.graph σ where
  windows := match pruning with
    | .reachability => some (p.agents.map (Window.start p.graph))
    | .disabled => none
  attempts := #[]
  calls := #[]
  oracle
  cancelled := timeline == some .outset

def reach (s : State g σ) (timeline : Timeline) (x : Moment) : State g σ :=
  { s with cancelled := s.cancelled || timeline == some x }

def extend (s : State g σ) (m : Nat) : State g σ :=
  { s with windows := s.windows.map fun ws => ws.map (Window.extend · m) }

def record (s : State g σ) (a : Attempt) : State g σ := { s with attempts := s.attempts.push a }

/-- A call of the oracle at makespan `m`, made with a clear token. -/
def consult (s : State g σ) (oracle : Oracle σ) (timeline : Timeline) (m : Nat) (call : Call) :
    Except OracleError Answer × State g σ :=
  let (answer, next) := oracle.solve s.oracle (timeline.poll m) call.varCount call.clauses
  (answer, { s with
    calls := s.calls.push call
    oracle := next
    cancelled := s.cancelled || timeline.duringCall m })

end State

abbrev Result := Except SolveError Outcome

variable {σ : Type} (p : Problem) (oracle : Oracle σ) (timeline : Timeline)

/-- The end of an attempt at makespan `m` that has seen the token set. -/
def abort (s : State p.graph σ) (m varCount clauses : Nat) : State p.graph σ × Option Result :=
  (s.record ⟨m, varCount, clauses, .cancelled⟩, some (.ok (.aborted m)))

def solveFormula [Memory] (m : Nat) (f : Formula) (s : State p.graph σ) :
    State p.graph σ × Option Result :=
  let size := f.clauses.size
  let s := s.reach timeline (.solving m)
  if s.cancelled then abort p s m f.varCount size
  else
    let (answer, s) := s.consult oracle timeline m ⟨f.varCount, f.clauses.toList⟩
    match answer with
    | .error e => (s, some (.error (.oracle e)))
    | .ok answer =>
      if s.cancelled then abort p s m f.varCount size
      else match answer with
        | .unsatisfiable => (s.record ⟨m, f.varCount, size, .unsatisfiable⟩, none)
        | .satisfiable model =>
          match Schedule.decode f p.agents.length p.graph.size model with
          | .error e => (s, some (.error (.decode e)))
          | .ok schedule =>
            (s.record ⟨m, f.varCount, size, .satisfiable⟩, some (.ok (.solved m schedule)))

/-- The attempt at makespan `m`; without a result the search goes on. -/
def attempt [Memory] (m : Nat) (s : State p.graph σ) : State p.graph σ × Option Result :=
  let s := s.reach timeline (.attempt m)
  if s.cancelled then abort p s m 0 0
  else
    let s := (s.reach timeline (.generating m)).extend m
    if s.cancelled then abort p s m 0 0
    else match Encoding.build p m s.windows with
      | .error misuse => (s, some (.error (.decode (.misuse misuse))))
      | .ok (.unreachable a) => (s.record ⟨m, 0, 0, .unreachable a⟩, none)
      | .ok (.built f) => solveFormula p oracle timeline m f s

def attempts [Memory] (last m : Nat) (s : State p.graph σ) : State p.graph σ × Result :=
  if m ≤ last then
    match attempt p oracle timeline m s with
    | (s, some result) => (s, result)
    | (s, none) => attempts last (m + 1) s
  else (s, .ok .exhausted)
termination_by last + 1 - m

def run [Memory] (config : SearchConfig) (initial : σ) : State p.graph σ × Result :=
  attempts p oracle timeline config.maxMakespan config.minMakespan
    (State.start p config.pruning timeline initial)

end Search

end AgentPaths
