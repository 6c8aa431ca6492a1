import AgentPaths.Misuse
import AgentPaths.Word

/-!
Memory. How much there is of it is up to the machine: all that is asked of it is whether so many
bytes can be had at once. More bytes than can be addressed are a misuse on any machine; fewer can
still be more than the memory has left.
-/
namespace AgentPaths

/-- The memory of a machine, by the numbers of bytes that can be had at once. -/
class Memory where
  holds : Nat → Bool
  holds_mono : ∀ {m n : Nat}, m ≤ n → holds n = true → holds m = true
  /-- As many bytes as half a word counts can always be had. -/
  holds_halfBound : holds halfBound = true

namespace Memory

/-- The memory of which up to `limit` bytes can be had. -/
@[reducible]
def upTo (limit : Nat) (h : halfBound ≤ limit) : Memory where
  holds n := n ≤ limit
  holds_mono hmn hn := by
    rw [decide_eq_true_eq] at hn ⊢
    exact Nat.le_trans hmn hn
  holds_halfBound := decide_eq_true h

/-- The memory of which everything that can be addressed can be had. -/
@[reducible]
def ample : Memory := upTo addressBound (by decide)

variable [Memory]

/-- What keeps so many bytes from being had, if anything does. -/
def lack? (bytes : Nat) : Option Misuse :=
  if addressBound ≤ bytes then some .tooLarge
  else if holds bytes then none
  else some .outOfMemory

theorem lack?_eq_none {n : Nat} : lack? n = none ↔ n < addressBound ∧ holds n = true := by
  unfold lack?
  split
  next h => simp [Nat.not_lt.mpr h]
  next h =>
    split
    next hn => simp [Nat.not_le.mp h, hn]
    next hn => simp [hn]

theorem lack?_mono {m n : Nat} (hmn : m ≤ n) (h : lack? n = none) : lack? m = none := by
  rw [lack?_eq_none] at h ⊢
  exact ⟨Nat.lt_of_le_of_lt hmn h.1, holds_mono hmn h.2⟩

theorem lack?_of_le {n : Nat} (h : n ≤ halfBound) : lack? n = none :=
  lack?_mono h (lack?_eq_none.mpr ⟨by decide, holds_halfBound⟩)

end Memory

end AgentPaths
