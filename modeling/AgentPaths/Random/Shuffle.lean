import AgentPaths.Random.SplitMix
import AgentPaths.Word

/-!
Shuffles. Position `i` of a list changes places with one of the positions up to `i`, for each `i` in
turn, so that every shuffle is a permutation whatever is drawn. Several of these small choices come
out of one draw, as the digits of a number below the product of their sizes.
-/
namespace AgentPaths.Shuffle

/-- The product of `k`, `k + 1`, … over as many factors as fit into 32 bits, with their number:
`product` holds `count` of them already. At most 32 factors greater than 1 fit. -/
def chunk (product count next : Nat) : Nat → Nat × Nat
  | 0 => (product, count)
  | fuel + 1 =>
    if product * next < halfBound then chunk (product * next) (count + 1) (next + 1) fuel
    else (product, count)

/-- A number below `bound`, which fits into 32 bits: the high half of a draw times the bound, with a
second draw where the first leaves it open. -/
def below (bound : Nat) (g : SplitMix) : Nat × SplitMix :=
  let (r, g) := g.draw
  let high := r * bound / halfBound
  let low := r * bound % halfBound
  if halfBound - bound < low then
    let (r, g) := g.draw
    let more := r * bound / halfBound
    (if halfBound ≤ low + more then high + 1 else high, g)
  else (high, g)

/-- A source of choices: the generator, and what is left of the last draw, good for `left`
choices. -/
structure Source where
  gen : SplitMix
  rest : Nat
  left : Nat

/-- A choice among the positions up to `i`. -/
def choose (i : Nat) (s : Source) : Nat × Source :=
  if i = 0 then (0, s)
  else
    let k := i + 1
    let s := if s.left = 0 then
        let (bound, count) := chunk k 1 (k + 1) 32
        let (rest, gen) := below bound s.gen
        ⟨gen, rest, count⟩
      else s
    if s.left = 1 then (s.rest, { s with left := 0 })
    else (s.rest % k, { s with rest := s.rest / k, left := s.left - 1 })

/-- Exchanges every position from `i` on, `todo` of them, with one up to it. -/
def exchange (s : Source) (a : Array α) (i : Nat) : Nat → Array α × Source
  | 0 => (a, s)
  | todo + 1 =>
    let (j, s) := choose i s
    exchange s (a.swapIfInBounds i j) (i + 1) todo

theorem swapIfInBounds_perm (a : Array α) (i j : Nat) : (a.swapIfInBounds i j).Perm a := by
  rw [Array.swapIfInBounds_def]
  split
  · split
    · exact Array.swap_perm _ _
    · exact Array.Perm.refl _
  · exact Array.Perm.refl _

theorem exchange_perm (s : Source) (a : Array α) (i todo : Nat) :
    (exchange s a i todo).1.Perm a := by
  induction todo generalizing s a i with
  | zero => exact Array.Perm.refl _
  | succ todo ih => exact (ih _ _ _).trans (swapIfInBounds_perm a i _)

def shuffle (l : List α) (g : SplitMix) : List α × SplitMix :=
  if l.length ≤ 1 then (l, g)
  else
    let (a, s) := exchange ⟨g, 0, 0⟩ l.toArray 0 l.length
    (a.toList, s.gen)

theorem shuffle_perm (l : List α) (g : SplitMix) : (shuffle l g).1.Perm l := by
  unfold shuffle
  split
  · exact List.Perm.refl _
  · exact (exchange_perm ⟨g, 0, 0⟩ l.toArray 0 l.length).toList

end AgentPaths.Shuffle
