import AgentPaths.Text.Number

/-!
Times as text: decimal numbers with an optional fraction and exponent, and the names of the values
that are no numbers. A text is read exactly; whether a time can be a budget is decided as for the
nearest double, which is where values round to zero or up to `2 ^ 64`.
-/
namespace AgentPaths.Cli

open Text

inductive Seconds where
  | nan
  | infinite (negative : Bool)
  /-- `digits` times 10 to the power of `exponent`, negated if `negative`. -/
  | finite (negative : Bool) (digits : Nat) (exponent : Int)
deriving DecidableEq

namespace Seconds

/-- A sign in front of a text; without one the text is positive. -/
def sign (s : List Char) : Bool × List Char :=
  match s with
  | '-' :: rest => (true, rest)
  | '+' :: rest => (false, rest)
  | _ => (false, s)

/-- The exponent behind a mantissa: nothing, or the mark `e` and a number with its sign. -/
def exponent? (s : List Char) : Option Int :=
  match s with
  | [] => some 0
  | e :: rest =>
    if e = 'e' ∨ e = 'E' then
      let (negative, rest) := sign rest
      (digits? rest).map fun n => if negative then -(n : Int) else (n : Int)
    else none

/-- A number without sign: digits with a point before, between or behind them, and an exponent. -/
def unsigned? (s : List Char) : Option (Nat × Int) :=
  let whole := s.takeWhile Char.isDigit
  let rest := s.dropWhile Char.isDigit
  let (fraction, rest) := match rest with
    | '.' :: rest => (rest.takeWhile Char.isDigit, rest.dropWhile Char.isDigit)
    | _ => ([], rest)
  match digits? (whole ++ fraction), exponent? rest with
  | some n, some e => some (n, e - (fraction.length : Int))
  | _, _ => none

/-- The time that a text stands for; names are read in any case. -/
def ofText? (s : List Char) : Option Seconds :=
  let (negative, rest) := sign s
  let name := rest.map Char.toLower
  if name = "nan".toList then some nan
  else if name = "inf".toList ∨ name = "infinity".toList then some (infinite negative)
  else (unsigned? rest).map fun (n, e) => finite negative n e

/-- The power of 10 with a positive exponent; 1 for the other exponents. -/
def ten (e : Int) : Nat := Nat.pow 10 e.toNat

def length (n : Nat) : Nat := (decimal n).length

/-- Whether `digits * 10 ^ e` rounds to 0: it is at most `2 ^ -1075`, half of the smallest
double. -/
def roundsToZero (digits : Nat) (e : Int) : Bool :=
  digits == 0 || e + length digits < -400 ||
    (e + length digits < 0 && digits * ten e * Nat.pow 2 1075 ≤ ten (-e))

/-- Whether `digits * 10 ^ e` rounds to `2 ^ 64` or more: it is at least `2 ^ 64 - 1024`, halfway
from the last double below. -/
def roundsTooLarge (digits : Nat) (e : Int) : Bool :=
  digits != 0 && (30 < e + length digits ||
    (0 < e + length digits && (wordBound - 1024) * ten (-e) ≤ digits * ten e))

/-- The milliseconds of a time, rounded up, if it can be a budget: it is not negative and below `2 ^
64` seconds. -/
def budget? : Seconds → Option Nat
  | finite negative digits e =>
    if roundsToZero digits e then some 0
    else if negative || roundsTooLarge digits e then none
    else
      let divisor := ten (-(e + 3))
      some ((digits * ten (e + 3) + (divisor - 1)) / divisor)
  | _ => none

end Seconds

end AgentPaths.Cli
