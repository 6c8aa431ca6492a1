import AgentPaths.Text.Blank
import AgentPaths.Word

/-!
Numbers as text: decimal, without sign, and small enough for a word. Reading allows a plus in front
and zeros before the first digit; writing uses neither.
-/
namespace AgentPaths.Text

/-- The number of a text of digits, of any size. -/
def digits? (s : List Char) : Option Nat :=
  if s ≠ [] ∧ s.all Char.isDigit then some (Nat.ofDigitChars 10 s 0) else none

/-- The number that a text stands for, if it is one and fits into a word. -/
def number? (s : List Char) : Option Nat :=
  (digits? (if s.head? = some '+' then s.tail else s)).filter (· < wordBound)

def numbers? (s : List Char) : Option (List Nat) := (words s).mapM number?

def decimal (n : Nat) : List Char := Nat.toDigits 10 n

theorem isDigit_of_mem_decimal {n : Nat} {c : Char} (h : c ∈ decimal n) : c.isDigit = true :=
  Nat.isDigit_of_mem_toDigits (by decide) (by decide) h

theorem decimal_ne_nil (n : Nat) : decimal n ≠ [] := Nat.toDigits_ne_nil

theorem isBlank_of_isDigit {c : Char} (h : c.isDigit = true) : isBlank c = false := by
  have hrange : 48 ≤ c.toNat ∧ c.toNat ≤ 57 := by
    simpa [Char.isDigit, UInt32.le_iff_toNat_le] using h
  simp only [isBlank, Bool.or_eq_false_iff, Bool.and_eq_false_iff, decide_eq_false_iff_not,
    beq_eq_false_iff_ne]
  omega

theorem isBlank_of_mem_decimal {n : Nat} {c : Char} (h : c ∈ decimal n) : isBlank c = false :=
  isBlank_of_isDigit (isDigit_of_mem_decimal h)

theorem lineFeed_notMem_decimal (n : Nat) : '\n' ∉ decimal n := fun h =>
  absurd (isDigit_of_mem_decimal h) (by decide)

theorem digits?_decimal (n : Nat) : digits? (decimal n) = some n := by
  have hall : (decimal n).all Char.isDigit = true :=
    List.all_eq_true.mpr fun _ h => isDigit_of_mem_decimal h
  rw [digits?, if_pos ⟨Nat.toDigits_ne_nil, hall⟩, decimal, Nat.ofDigitChars_ten_toDigits]

theorem number?_decimal {n : Nat} (h : n < wordBound) : number? (decimal n) = some n := by
  have hhead : (decimal n).head? ≠ some '+' := by
    intro he
    have := isDigit_of_mem_decimal (List.mem_of_head? he)
    exact absurd this (by decide)
  rw [number?, if_neg hhead, digits?_decimal]
  simp [Option.filter, h]

end AgentPaths.Text
