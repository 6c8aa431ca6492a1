import AgentPaths.Sat.Store

/-!
What the clauses of a store demand of a trail. A clause that has one literal left demands that
literal, and a clause that has none clashes with the trail.
-/
namespace AgentPaths.Sat

inductive Clash where
  | binary (a b : Code) (number : Nat)
  | clause (place : Nat)

/-- Makes the first `k` literals of `out` true, because `c` is true. -/
def imply (c : Code) (out : Array Nat) : Nat → Trail → Trail × Option Clash
  | 0, t => (t, none)
  | k + 1, t =>
    let d : Code := out.getD (2 * k) 0
    let number := out.getD (2 * k + 1) 0
    if t.isTrue d then imply c out k t
    else if t.isFalse d then (t, some (.binary d c.neg number))
    else imply c out k (t.assign d (.binary c.neg number))

/-- The first of the cells from `i` to `stop` with a literal that is not false, or `stop`. -/
def firstOpen (cells : Array Nat) (t : Trail) (i : Nat) : Nat → Nat
  | 0 => i
  | k + 1 => if t.isFalse (cells.getD i 0) then firstOpen cells t (i + 1) k else i

/-- Puts the watch of a clause at position `j` of a list. -/
@[inline] def rewatch (ws : Array Nat) (j place : Nat) (other : Code) : Array Nat :=
  (ws.setIfInBounds j place).setIfInBounds (j + 1) other

/-- Moves the last `k` watches of a list, which begin at position `i`, to position `j` and ends the
list. -/
def closeUp (ws : Array Nat) (i j : Nat) : Nat → Array Nat
  | 0 => ws.shrink j
  | k + 1 => closeUp (rewatch ws j (ws.getD i 0) (ws.getD (i + 1) 0)) (i + 2) (j + 2) k

structure Walk where
  watches : Array Nat
  cells : Array Nat
  watching : Array (Array Nat)
  trail : Trail
  clash : Option Clash

/-- Goes over the last `k` watches at `c`, which has become false; they begin at position `i`, and
`j` is the position of the next one that stays. -/
def walk (c : Code) :
    Nat → Nat → Nat → Array Nat → Array Nat → Array (Array Nat) → Trail → Walk
  | 0, _, j, ws, cells, watching, t => ⟨ws.shrink j, cells, watching, t, none⟩
  | k + 1, i, j, ws, cells, watching, t =>
    let place := ws.getD i 0
    let hint := ws.getD (i + 1) 0
    if t.isTrue hint then walk c k (i + 2) (j + 2) (rewatch ws j place hint) cells watching t
    else
      let a := cells.getD (place + 2) 0
      let other : Code := if a == c then cells.getD (place + 3) 0 else a
      if t.isTrue other then walk c k (i + 2) (j + 2) (rewatch ws j place other) cells watching t
      else
        let stop := place + 2 + Store.width cells place
        let cell := firstOpen cells t (place + 4) (stop - (place + 4))
        if cell < stop then
          let d := cells.getD cell 0
          let cells := ((cells.setIfInBounds cell c).setIfInBounds (place + 2) other).setIfInBounds
            (place + 3) d
          walk c k (i + 2) j ws cells (Store.list watching d place other) t
        else if t.isFalse other then
          ⟨closeUp ws i j (k + 1), cells, watching, t, some (.clause place)⟩
        else
          walk c k (i + 2) (j + 2) (rewatch ws j place other) cells watching
            (t.assign other (.clause place))

/-- Follows the true literals from number `i` on, at most `k` of them, and what they bring about. -/
def propagate : Nat → Nat → Store → Trail → Store × Trail × Option Clash
  | 0, _, s, t => (s, t, none)
  | k + 1, i, s, t =>
    if h : i < t.literals.size then
      let c := t.literals[i]
      let out := s.implied.getD c #[]
      match imply c out (out.size / 2) t with
      | (t, some clash) => (s, t, some clash)
      | (t, none) =>
        let ⟨cells, implied, watching⟩ := s
        let ws := watching.getD c.neg #[]
        let ⟨ws, cells, watching, t, clash⟩ :=
          walk c.neg (ws.size / 2) 0 0 ws cells (watching.setIfInBounds c.neg #[]) t
        let s : Store := ⟨cells, implied, watching.setIfInBounds c.neg ws⟩
        if clash.isSome then (s, t, clash) else propagate k (i + 1) s t
    else (s, t, none)

end AgentPaths.Sat
