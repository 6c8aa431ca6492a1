import AgentPaths.Logic

/-!
Literals as numbers. The literals of the variable `v` have the codes `2 * v` and `2 * v + 1`, so
that arrays can hold something for every literal of the variables below a bound.
-/
namespace AgentPaths.Sat

/-- The place of a literal among all literals, those of lesser variables first. -/
abbrev Code := Nat

namespace Code

/-- The literal of a variable that is true when the variable is. -/
@[inline] def positive (v : Nat) : Code := 2 * v

@[inline] def negative (v : Nat) : Code := 2 * v + 1

@[inline] def var (c : Code) : Nat := c / 2

@[inline] def isPositive (c : Code) : Bool := c % 2 == 0

@[inline] def neg (c : Code) : Code := if c % 2 == 0 then c + 1 else c - 1

/-- The literal of a variable that is true when the variable has the value `b`. -/
@[inline] def ofValue (v : Nat) (b : Bool) : Code := if b then positive v else negative v

def holds (val : Nat → Bool) (c : Code) : Bool := val c.var == c.isPositive

@[simp] theorem var_positive (v : Nat) : var (positive v) = v :=
  Nat.mul_div_cancel_left v Nat.two_pos

@[simp] theorem var_negative (v : Nat) : var (negative v) = v := by
  show (2 * v + 1) / 2 = v
  omega

@[simp] theorem isPositive_positive (v : Nat) : isPositive (positive v) = true :=
  beq_iff_eq.mpr (Nat.mul_mod_right 2 v)

@[simp] theorem isPositive_negative (v : Nat) : isPositive (negative v) = false := by
  have hodd : (2 * v + 1) % 2 = 1 := by omega
  rw [isPositive, negative, hodd]
  rfl

@[simp] theorem var_ofValue (v : Nat) (b : Bool) : var (ofValue v b) = v := by
  cases b <;> simp [ofValue]

@[simp] theorem isPositive_ofValue (v : Nat) (b : Bool) : isPositive (ofValue v b) = b := by
  cases b <;> simp [ofValue]

@[simp] theorem var_neg (c : Nat) : var (neg c) = var c := by
  rcases Nat.mod_two_eq_zero_or_one c with h | h
  · rw [neg, h, if_pos (beq_self_eq_true 0)]
    show (c + 1) / 2 = c / 2
    omega
  · rw [neg, h, if_neg (by decide)]
    show (c - 1) / 2 = c / 2
    omega

@[simp] theorem isPositive_neg (c : Nat) : isPositive (neg c) = !isPositive c := by
  rcases Nat.mod_two_eq_zero_or_one c with h | h
  · have hodd : (c + 1) % 2 = 1 := by omega
    rw [neg, h, if_pos (beq_self_eq_true 0), isPositive, isPositive, h, hodd]
    rfl
  · have heven : (c - 1) % 2 = 0 := by omega
    rw [neg, h, if_neg (by decide), isPositive, isPositive, h, heven]
    rfl

@[simp] theorem neg_positive (v : Nat) : neg (positive v) = negative v := by
  rw [neg, positive, if_pos (beq_iff_eq.mpr (Nat.mul_mod_right 2 v))]
  rfl

@[simp] theorem neg_negative (v : Nat) : neg (negative v) = positive v := by
  have hodd : (2 * v + 1) % 2 = 1 := by omega
  rw [neg, negative, hodd]
  rfl

theorem holds_neg (val : Nat → Bool) (c : Code) : holds val (neg c) = !holds val c := by
  rw [holds, holds, var_neg, isPositive_neg]
  cases val c.var <;> cases isPositive c <;> rfl

@[simp] theorem holds_positive (val : Nat → Bool) (v : Nat) : holds val (positive v) = val v := by
  simp [holds]

@[simp] theorem holds_negative (val : Nat → Bool) (v : Nat) : holds val (negative v) = !val v := by
  simp [holds]

end Code

/-- Every clause has a true literal. -/
def Models (val : Nat → Bool) (cs : List (List Code)) : Prop :=
  ∀ c ∈ cs, ∃ l ∈ c, Code.holds val l = true

end AgentPaths.Sat
