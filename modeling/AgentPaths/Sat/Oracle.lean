import AgentPaths.Memory
import AgentPaths.Sat.Model

/-!
Oracles decide whether clauses can be satisfied. An oracle can look at the cancellation token while
it works; a call that sees a request answers "unsatisfiable", and its caller tells that from a
refutation by looking at the token afterwards. `Adapter` makes an oracle of a solver that cannot
look at anything.
-/
namespace AgentPaths

inductive Answer where
  | satisfiable (model : Assignment)
  | unsatisfiable
deriving DecidableEq

inductive OracleError where
  /-- The solver gave up, in its own words. -/
  | solver (text : String)
  /-- The solver found the clauses satisfiable and has no model. -/
  | missingModel
  | misuse (m : Misuse)
deriving DecidableEq

def OracleError.message : OracleError → String
  | solver text => s!"SAT solver failed: {text}"
  | missingModel => "SAT solver reported satisfiable but returned no model"
  | misuse m => m.message?.getD ""

/-- What the looks at the token during a call see, from the first on. -/
abbrev Poll := Nat → Bool

/-- An oracle with states `σ`: a call takes the token, the number of variables and the clauses. -/
structure Oracle (σ : Type) where
  solve : σ → Poll → Nat → List Clause → Except OracleError Answer × σ

/-- What a solver says about clauses; a model is the list of its true literals. -/
inductive Reply (Lit : Type) where
  | failed (text : String)
  | unsatisfiable
  | satisfiable (model : Option (List Lit))

/-- A solver, which has literals of its own. -/
structure Solver where
  Lit : Type
  /-- The literal of a variable, positive or not. To ask for that of a variable that the solver
  cannot name is a misuse. -/
  lit? (var : Nat) (positive : Bool) : Option Lit
  index : Lit → Nat
  isPositive : Lit → Bool
  solve : List (List Lit) → Reply Lit

namespace Solver

variable (solver : Solver)

/-- A literal in the terms of the solver. -/
def ofLiteral? (l : Literal) : Option solver.Lit := solver.lit? l.var (!l.negated)

/-- Clauses in the terms of the solver. -/
def ofClauses? (cs : List Clause) : Option (List (List solver.Lit)) :=
  cs.mapM fun c => c.mapM solver.ofLiteral?

/-- The assignment of `n` variables that the literals of a model make; variables that the solver has
never seen are false. -/
def assignment (n : Nat) (ls : List solver.Lit) : Assignment :=
  .ofValues n (ls.map fun l => (solver.index l, solver.isPositive l))

end Solver

namespace Adapter

variable (solver : Solver)

/-- The number of clauses that are loaded between two looks at the token. -/
def interval : Nat := 4096

/-- Loads clauses behind those already loaded. The token is looked at before every chunk, for the
first time in look number `look`; with the clauses comes the number of the next look. There are none
if a look sees the token set. -/
def load (poll : Poll) (look : Nat) (loaded : List (List solver.Lit)) (cs : List Clause) :
    Except Misuse (Option (Nat × List (List solver.Lit))) :=
  if _h : cs = [] then .ok (some (look, loaded))
  else if poll look then .ok none
  else match solver.ofClauses? (cs.take interval) with
    | none => .error .tooLarge
    | some chunk => load poll (look + 1) (loaded ++ chunk) (cs.drop interval)
termination_by cs.length
decreasing_by
  have := List.length_pos_iff.mpr _h
  rw [List.length_drop]
  unfold interval
  omega

/-- One call: load, look, solve, look. -/
def solve [Memory] (poll : Poll) (varCount : Nat) (cs : List Clause) : Except OracleError Answer :=
  match load solver poll 0 [] cs with
  | .error misuse => .error (.misuse misuse)
  | .ok none => .ok .unsatisfiable
  | .ok (some (look, loaded)) =>
    if poll look then .ok .unsatisfiable
    else match solver.solve loaded with
      | .failed text => .error (.solver text)
      | .unsatisfiable => .ok .unsatisfiable
      | .satisfiable model =>
        if poll (look + 1) then .ok .unsatisfiable
        else match model with
          | none => .error .missingModel
          | some ls => match Memory.lack? varCount with
            | some misuse => .error (.misuse misuse)
            | none => .ok (.satisfiable (solver.assignment varCount ls))

def oracle [Memory] : Oracle Unit where
  solve _ poll varCount cs := (solve solver poll varCount cs, ())

end Adapter

/-- The solver whose literals are codes. It gives any model. -/
def Solver.any : Solver where
  Lit := Sat.Code
  lit? var positive := some (.ofValue var positive)
  index := Sat.Code.var
  isPositive := Sat.Code.isPositive
  solve cs := match Sat.model? cs with
    | none => .unsatisfiable
    | some ls => .satisfiable (some ls)

/-- The clauses in codes. -/
def codes (cs : List Clause) : List (List Sat.Code) :=
  cs.map (·.map fun l => .ofValue l.var (!l.negated))

/-- The first of the assignments of `n` variables that satisfy the clauses, if there is one. -/
def leastAssignment? (n : Nat) (cs : List Clause) : Option Assignment :=
  (Sat.leastModel? (codes cs)).map fun ls =>
    .ofValues n (ls.map fun l => (l.var, l.isPositive))

/-- The oracle that finds the first assignment, unless the token is set when it begins. -/
def Oracle.least : Oracle Unit where
  solve _ poll n cs :=
    let answer := if poll 0 then .unsatisfiable else
      match leastAssignment? n cs with
      | none => .unsatisfiable
      | some model => .satisfiable model
    (.ok answer, ())

end AgentPaths
