import AgentPaths.Sat.Agenda
import AgentPaths.Sat.Certificate
import AgentPaths.Sat.Learning

/-!
Search for values of the variables below `n` under which all clauses hold. A clash teaches a lesson,
and the search goes back to the choices that the lesson is about. It chooses the variables of the
latest clashes first and gives a variable the value that it had last; from time to time it goes back
to the beginning. Nothing has to be taken on trust from it: if it finds no such values, it has
written down the steps of a certificate.
-/
namespace AgentPaths.Sat

structure State where
  store : Store
  trail : Trail
  agenda : Agenda
  marks : Marks
  /-- The number of true literals that have been followed. -/
  followed : Nat
  /-- The number of literals that are true whatever is chosen and that have been written down. -/
  settled : Nat
  /-- The steps written down, the last one first. -/
  steps : List Step
  /-- The number of clauses, those written down included. -/
  count : Nat
  /-- The number of times that the search has gone back to the beginning. -/
  returns : Nat
  /-- The number of lessons since then. -/
  recent : Nat

/-- Takes back at most `k` literals, as long as more than `target` are true. -/
def retreat (target : Nat) : Nat → Agenda → Trail → Agenda × Trail
  | 0, a, t => (a, t)
  | k + 1, a, t =>
    if h : target < t.literals.size then
      let c := t.literals[t.literals.size - 1]
      let a := { a with signs := a.signs.put c.var (if c.isPositive then 1 else 0) }
      retreat target k (a.release c.var) (t.retract c)
    else (a, t)

namespace State

def backTo (s : State) (level : Nat) : State :=
  if level < s.trail.choices then
    let target := s.trail.starts.getD level 0
    let ⟨store, trail, agenda, marks, followed, settled, steps, count, returns, recent⟩ := s
    let (agenda, trail) := retreat target trail.literals.size agenda trail
    ⟨store, { trail with starts := trail.starts.shrink level }, agenda, marks, min followed target,
      settled, steps, count, returns, recent⟩
  else s

/-- Takes a lesson in: it demands its first literal. -/
def accept (s : State) (l : Lesson) : State :=
  let ⟨store, trail, agenda, marks, followed, settled, steps, count, returns, recent⟩ := s
  let place := store.cells.size
  let (store, trail) := match l.rest with
    | [] => (store, trail.assign l.head .none)
    | [c] => (store.addBinary count l.head c, trail.assign l.head (.binary c count))
    | c :: rest => (store.addLong count l.head c rest, trail.assign l.head (.clause place))
  ⟨store, trail, agenda, marks, followed, settled, ⟨l.head :: l.rest, l.hints⟩ :: steps, count + 1,
    returns, recent + 1⟩

def recover (s : State) (x : Clash) : State :=
  let ⟨store, trail, agenda, marks, followed, settled, steps, count, returns, recent⟩ := s
  let (lesson, met, marks) := Lesson.ofClash marks store.cells trail x
  let level := match lesson.rest with
    | [] => 0
    | c :: _ => trail.level c.var
  let ⟨store, trail, agenda, marks, followed, settled, steps, count, returns, recent⟩ := backTo
    ⟨store, trail, agenda, marks, followed, settled, steps, count, returns, recent⟩ level
  let met := met.mergeSort fun v w => agenda.stamp v ≤ agenda.stamp w
  let agenda := met.foldl (fun a v => a.favour trail v) agenda
  accept ⟨store, trail, agenda, marks, followed, settled, steps, count, returns, recent⟩ lesson

/-- Writes down the next `k` literals that are true whatever is chosen. -/
def settle : Nat → State → State
  | 0, s => s
  | k + 1, s =>
    let c := s.trail.literals.getD s.settled 0
    let s := { s with settled := s.settled + 1 }
    match s.trail.reason c.var with
    | .none => settle k s
    | .binary _ number =>
      settle k { s with steps := ⟨[c], [number]⟩ :: s.steps, count := s.count + 1 }
    | .clause place =>
      let number := Store.number s.store.cells place
      settle k { s with steps := ⟨[c], [number]⟩ :: s.steps, count := s.count + 1 }

end State

inductive Finding where
  | model (t : Trail)
  | refuted (steps : List Step)
  | lost

/-- The number of lessons after which a search that has gone back `k` times goes back again: mostly
a few, and from time to time more. -/
def patience (k : Nat) : Nat := 8 * Nat.gcd (k + 1) 64

def Clash.number (cells : Array Nat) : Clash → Nat
  | .binary _ _ number => number
  | .clause place => Store.number cells place

/-- Searches in a number of steps at most. -/
def search : Nat → State → Finding
  | 0, _ => .lost
  | k + 1, s =>
    let ⟨store, trail, agenda, marks, followed, settled, steps, count, returns, recent⟩ := s
    let (store, trail, clash) := propagate (trail.levels.size + 1) followed store trail
    let s : State :=
      ⟨store, trail, agenda, marks, trail.literals.size, settled, steps, count, returns, recent⟩
    let s := if s.trail.choices == 0 then s.settle (s.trail.literals.size - s.settled) else s
    match clash with
    | some clash =>
      if s.trail.choices == 0 then
        .refuted (⟨[], [clash.number s.store.cells]⟩ :: s.steps).reverse
      else search k (s.recover clash)
    | none =>
      if patience s.returns ≤ s.recent then
        search k { s.backTo 0 with returns := s.returns + 1, recent := 0 }
      else match s.agenda.next? s.trail with
        | none => .model s.trail
        | some v =>
          let ⟨store, trail, agenda, marks, followed, settled, steps, count, returns, recent⟩ := s
          let trail := trail.choose (agenda.literal v)
          let agenda := { agenda with cursor := v }
          search k ⟨store, trail, agenda, marks, followed, settled, steps, count, returns, recent⟩

/-- Takes clauses in. Those with one literal are written down again, as they are true whatever is
chosen; a clause without literals, or with a false one, is the end. -/
def load (number : Nat) (s : State) : List (List Code) → Except (List Step) State
  | [] => .ok s
  | c :: rest =>
    let ⟨store, trail, agenda, marks, followed, settled, steps, count, returns, recent⟩ := s
    match c with
    | [] => .error (⟨[], [number]⟩ :: steps)
    | [a] =>
      if trail.isTrue a then
        load (number + 1)
          ⟨store, trail, agenda, marks, followed, settled, steps, count, returns, recent⟩ rest
      else if trail.isFalse a then .error (⟨[], [number]⟩ :: steps)
      else load (number + 1) ⟨store, trail.assign a .none, agenda, marks, followed, settled,
        ⟨[a], [number]⟩ :: steps, count + 1, returns, recent⟩ rest
    | [a, b] => load (number + 1) ⟨store.addBinary number a b, trail, agenda, marks, followed,
        settled, steps, count, returns, recent⟩ rest
    | a :: b :: more => load (number + 1) ⟨store.addLong number a b more, trail, agenda, marks,
        followed, settled, steps, count, returns, recent⟩ rest

/-- More steps than any search takes. -/
def stepLimit : Nat := 0x1000000000000

def explore (n : Nat) (cs : List (List Code)) : Finding :=
  match load 0 ⟨.empty n, .empty n, .start n, .start n, 0, 0, [], cs.length, 0, 0⟩ cs with
  | .error steps => .refuted steps.reverse
  | .ok s => search stepLimit s

end AgentPaths.Sat
