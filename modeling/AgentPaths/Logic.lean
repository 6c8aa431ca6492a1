import AgentPaths.Pairs

/-!
Formulas in conjunctive form. An assignment that is an array may be too short for a literal:
`holds?` has no answer then, and it looks a literal up only while the answer is open. On assignments
that are long enough it agrees with `holds`, the truth value under a total valuation.
-/
namespace AgentPaths

structure Literal where
  var : Nat
  negated : Bool
deriving DecidableEq, Hashable

/-- A disjunction of literals, in the order in which they were put in. -/
abbrev Clause := List Literal

/-- The truth values of the variables `0, 1, …`. -/
abbrev Assignment := Array Bool

/-- The total valuation of an assignment: variables beyond its end are false. -/
def Assignment.value (a : Assignment) (var : Nat) : Bool := a[var]?.getD false

/-- The assignment of `n` variables with the values listed, of which the last one of a variable
counts. Variables without a value are false, and values of others are left out. -/
def Assignment.ofValues (n : Nat) (values : List (Nat × Bool)) : Assignment :=
  values.foldl (fun a (var, b) => a.setIfInBounds var b) (Array.replicate n false)

@[simp] theorem Assignment.size_ofValues (n : Nat) (values : List (Nat × Bool)) :
    (ofValues n values).size = n := by
  have hfold (a : Assignment) :
      (values.foldl (fun a (var, b) => a.setIfInBounds var b) a).size = a.size := by
    induction values generalizing a with
    | nil => rfl
    | cons _ rest ih => rw [List.foldl_cons, ih, Array.size_setIfInBounds]
  rw [ofValues, hfold, Array.size_replicate]

namespace Literal

def positive (var : Nat) : Literal := ⟨var, false⟩

def neg (l : Literal) : Literal := ⟨l.var, !l.negated⟩

def holds (val : Nat → Bool) (l : Literal) : Bool := val l.var != l.negated

@[simp] theorem holds_positive (val : Nat → Bool) (v : Nat) : (positive v).holds val = val v := by
  simp [holds, positive]

@[simp] theorem holds_neg (val : Nat → Bool) (l : Literal) : l.neg.holds val = !l.holds val := by
  simp only [holds, neg]
  cases val l.var <;> cases l.negated <;> rfl

/-- Whether a literal holds, if the assignment has its variable. -/
def holds? (a : Assignment) (l : Literal) : Option Bool := a[l.var]?.map (· != l.negated)

theorem holds?_of_lt {a : Assignment} {l : Literal} (h : l.var < a.size) :
    l.holds? a = some (l.holds a.value) := by
  simp [holds?, holds, Assignment.value, h]

end Literal

namespace Clause

def ofPair (l r : Literal) : Clause := [l, r]

def push (c : Clause) (l : Literal) : Clause := c ++ [l]

def holds (val : Nat → Bool) (c : Clause) : Bool := c.any (·.holds val)

/-- Whether a clause holds, from its first literal up to the first that does. -/
def holds? (a : Assignment) : Clause → Option Bool
  | [] => some false
  | l :: rest => match l.holds? a with
    | none => none
    | some true => some true
    | some false => holds? a rest

theorem holds?_of_lt {a : Assignment} {c : Clause} (h : ∀ l ∈ c, l.var < a.size) :
    c.holds? a = some (c.holds a.value) := by
  induction c with
  | nil => rfl
  | cons l rest ih =>
    have hl := Literal.holds?_of_lt (h l List.mem_cons_self)
    rw [holds?, hl, ih fun x hx => h x (List.mem_cons_of_mem _ hx)]
    unfold holds
    rw [List.any_cons]
    cases l.holds a.value <;> rfl

end Clause

def Satisfies (val : Nat → Bool) (cs : List Clause) : Prop := ∀ c ∈ cs, c.holds val = true

/-- Whether all clauses hold, from the first up to the first that does not. -/
def satisfied? (a : Assignment) : List Clause → Option Bool
  | [] => some true
  | c :: rest => match c.holds? a with
    | none => none
    | some false => some false
    | some true => satisfied? a rest

theorem satisfied?_iff {a : Assignment} {cs : List Clause}
    (h : ∀ c ∈ cs, ∀ l ∈ c, l.var < a.size) :
    satisfied? a cs = some true ↔ Satisfies a.value cs := by
  induction cs with
  | nil => simp [satisfied?, Satisfies]
  | cons c rest ih =>
    have hc := Clause.holds?_of_lt (h c List.mem_cons_self)
    have hrest := ih fun x hx => h x (List.mem_cons_of_mem _ hx)
    rw [satisfied?, hc]
    unfold Satisfies at hrest ⊢
    cases hval : c.holds a.value <;> simp [hval, hrest]

/-- The clauses that hold together exactly when at most one place of `ls` holds a true literal. -/
def atMostOne (ls : List Literal) : List Clause :=
  (pairs (ls.map Literal.neg)).map fun (x, y) => [x, y]

theorem length_atMostOne (ls : List Literal) :
    (atMostOne ls).length = ls.length * (ls.length - 1) / 2 := by
  rw [atMostOne, List.length_map, length_pairs, List.length_map]

end AgentPaths
