import AgentPaths.Sat.Propagation

/-!
What can be learnt from a clash. Of the clause that clashes, the literals that became false after
the last choice are replaced by what made them false, the latest first, until a single one of them
is left. This lesson follows from the clauses looked at, and it demands that literal as soon as its
other literals are false.
-/
namespace AgentPaths.Sat

structure Lesson where
  /-- The literal that became false after the last choice. -/
  head : Code
  /-- The other literals, those of the latest choice first. -/
  rest : List Code
  /-- The numbers of the clauses looked at, in the order in which they demanded a literal. -/
  hints : List Nat

structure Inquiry where
  /-- The variables of the literals met have the mark 1. -/
  marks : Marks
  /-- The variables with a mark. -/
  met : List Nat
  /-- The number of literals met that became false after the last choice and have not been
  replaced. -/
  pending : Nat
  /-- The literals met that became false before that. -/
  earlier : List Code
  hints : List Nat

namespace Inquiry

/-- Meets a literal. One that is false whatever is chosen does not count. -/
def meet (i : Inquiry) (t : Trail) (c : Code) : Inquiry :=
  let ⟨marks, met, pending, earlier, hints⟩ := i
  let v := c.var
  let level := t.level v
  if level == 0 || marks.get v != 0 then ⟨marks, met, pending, earlier, hints⟩
  else if level == t.choices then ⟨marks.put v 1, v :: met, pending + 1, earlier, hints⟩
  else ⟨marks.put v 1, v :: met, pending, c :: earlier, hints⟩

/-- Meets `k` literals from a cell on, except those of one variable. -/
def meetCells (cells : Array Nat) (t : Trail) (v cell : Nat) : Nat → Inquiry → Inquiry
  | 0, i => i
  | k + 1, i =>
    let c : Code := cells.getD cell 0
    meetCells cells t v (cell + 1) k (if c.var == v then i else i.meet t c)

/-- Meets the literals of a longer clause, except those of one variable. -/
def meetClause (cells : Array Nat) (t : Trail) (v place : Nat) (i : Inquiry) : Inquiry :=
  meetCells cells t v (place + 2) (Store.width cells place)
    { i with hints := Store.number cells place :: i.hints }

def ofClash (marks : Marks) (cells : Array Nat) (t : Trail) (x : Clash) : Inquiry :=
  match x with
  | .binary a b number => (meet ⟨marks, [], 0, [], [number]⟩ t a).meet t b
  | .clause place => meetClause cells t t.levels.size place ⟨marks, [], 0, [], []⟩

/-- Replaces literals along the first `k` literals of the trail, from the last one on, and gives the
literal that is left. -/
def resolve (cells : Array Nat) (t : Trail) : Nat → Inquiry → Code × Inquiry
  | 0, i => (0, i)
  | k + 1, i =>
    let c := t.literals.getD k 0
    if i.marks.get c.var == 0 then resolve cells t k i
    else if i.pending ≤ 1 then (c.neg, i)
    else
      let i := { i with pending := i.pending - 1 }
      match t.reason c.var with
      | .none => resolve cells t k i
      | .binary other number =>
        resolve cells t k (meet { i with hints := number :: i.hints } t other)
      | .clause place => resolve cells t k (i.meetClause cells t c.var place)

end Inquiry

namespace Lesson

/-- Puts a literal of the latest choice in front. -/
def latestFirst (t : Trail) : List Code → List Code
  | [] => []
  | c :: rest =>
    let (d, others) := rest.foldl (fun (d, others) x =>
      if t.level d.var < t.level x.var then (x, d :: others) else (d, x :: others)) (c, [])
    d :: others

/-- The lesson of a clash, the variables met on the way, and the marks, clear again. -/
def ofClash (marks : Marks) (cells : Array Nat) (t : Trail) (x : Clash) :
    Lesson × List Nat × Marks :=
  let (head, ⟨marks, met, _, earlier, hints⟩) :=
    (Inquiry.ofClash marks cells t x).resolve cells t t.literals.size
  (⟨head, latestFirst t earlier, hints⟩, met, met.foldl (fun marks v => marks.put v 0) marks)

end Lesson

end AgentPaths.Sat
