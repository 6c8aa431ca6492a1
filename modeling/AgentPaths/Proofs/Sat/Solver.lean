import AgentPaths.Sat.Oracle
import Mathlib.Data.List.Forall2

/-!
What is taken for granted about a solver. A literal that it gives to a variable is read back as that
variable with that sign, and it can give literals to the variables below some number. A reply about
clauses is right if it refutes them only when no valuation satisfies them, and if its model gives a
value to every variable of theirs and meets them. What is said here carries right replies
over to the clauses that the solver's clauses come from.
-/
namespace AgentPaths

/-- All variables of the clauses come before `n`. -/
def VarsBelow (n : Nat) (cs : List Clause) : Prop := ∀ c ∈ cs, ∀ l ∈ c, l.var < n

namespace Solver

variable (solver : Solver)

/-- Literals are read back as they have been named. -/
def Faithful : Prop := ∀ v b l, solver.lit? v b = some l →
  solver.index l = v ∧ solver.isPositive l = b

/-- The variables below `range` can be named, and their literals are read back. There are no more of
them than half a word counts. -/
structure Names (range : Nat) : Prop where
  range_le : range ≤ halfBound
  lit : ∀ v < range, ∀ b, ∃ l, solver.lit? v b = some l ∧ solver.index l = v ∧
    solver.isPositive l = b

def holds (val : Nat → Bool) (l : solver.Lit) : Bool := val (solver.index l) == solver.isPositive l

/-- The literals are those of a model: they agree about every variable, they have one for every
variable of the clauses, and they meet every clause. -/
structure IsModel (ds : List (List solver.Lit)) (ls : List solver.Lit) : Prop where
  consistent : ∀ l ∈ ls, ∀ l' ∈ ls, solver.index l = solver.index l' →
    solver.isPositive l = solver.isPositive l'
  covers : ∀ d ∈ ds, ∀ l ∈ d, ∃ l' ∈ ls, solver.index l' = solver.index l
  meets : ∀ d ∈ ds, ∃ l ∈ d, ∃ l' ∈ ls, solver.index l' = solver.index l ∧
    solver.isPositive l' = solver.isPositive l

/-- What a reply has to be for clauses. -/
def Right (ds : List (List solver.Lit)) : Reply solver.Lit → Prop
  | .failed _ => False
  | .unsatisfiable => ∀ val, ¬∀ d ∈ ds, ∃ l ∈ d, solver.holds val l = true
  | .satisfiable none => False
  | .satisfiable (some ls) => solver.IsModel ds ls

/-- All variables of the solver's clauses come before `range`. -/
def IndicesBelow (range : Nat) (ds : List (List solver.Lit)) : Prop :=
  ∀ d ∈ ds, ∀ l ∈ d, solver.index l < range

/-- About clauses over the variables below `range` the solver gives up, or its reply is right. -/
def Sincere (range : Nat) : Prop := ∀ ds, solver.IndicesBelow range ds →
  (∃ text, solver.solve ds = .failed text) ∨ solver.Right ds (solver.solve ds)

/-- The solver is sound and complete about all clauses that it can name. -/
structure Keeps : Prop where
  faithful : solver.Faithful
  right : ∀ ds, solver.Right ds (solver.solve ds)

/-- A literal of the solver says what a literal says. -/
def Says (l : Literal) (d : solver.Lit) : Prop :=
  solver.index d = l.var ∧ solver.isPositive d = !l.negated

/-- The clauses of the solver are these clauses, literal by literal. -/
def States (cs : List Clause) (ds : List (List solver.Lit)) : Prop :=
  List.Forall₂ (List.Forall₂ solver.Says) cs ds

variable {solver} {range n : Nat} {c : Clause} {cs : List Clause} {d : List solver.Lit}
  {ds : List (List solver.Lit)} {val : Nat → Bool}

/-- If every element of a list has an image, so has the list, element by element. -/
theorem exists_mapM_eq_some {α β : Type} {f : α → Option β} {R : α → β → Prop} {l : List α}
    (h : ∀ a ∈ l, ∃ b, f a = some b ∧ R a b) : ∃ bs, l.mapM f = some bs ∧ List.Forall₂ R l bs := by
  induction l with
  | nil => exact ⟨[], rfl, .nil⟩
  | cons a rest ih =>
    obtain ⟨⟨b, hb, hab⟩, hrest⟩ := List.forall_mem_cons.mp h
    obtain ⟨bs, hbs, hall⟩ := ih hrest
    refine ⟨b :: bs, ?_, .cons hab hall⟩
    rw [List.mapM_cons, hb, hbs]
    rfl

theorem Names.exists_ofClauses? (h : solver.Names range) (hbelow : VarsBelow range cs) :
    ∃ ds, solver.ofClauses? cs = some ds ∧ solver.States cs ds := by
  apply exists_mapM_eq_some
  intro c hc
  apply exists_mapM_eq_some
  intro l hl
  exact h.lit l.var (hbelow c hc l hl) _

theorem forall₂_of_mapM_eq_some {α β : Type} {f : α → Option β} {R : α → β → Prop} {l : List α}
    {bs : List β} (h : ∀ a b, f a = some b → R a b) (hbs : l.mapM f = some bs) :
    List.Forall₂ R l bs := by
  induction l generalizing bs with
  | nil =>
    cases hbs
    exact .nil
  | cons a rest ih =>
    rw [List.mapM_cons, Option.bind_eq_bind, Option.bind_eq_some_iff] at hbs
    obtain ⟨b, hb, hbs⟩ := hbs
    rw [Option.bind_eq_bind, Option.bind_eq_some_iff] at hbs
    obtain ⟨more, hmore, hbs⟩ := hbs
    cases hbs
    exact .cons (h a b hb) (ih hmore)

theorem Faithful.states (h : solver.Faithful) (hds : solver.ofClauses? cs = some ds) :
    solver.States cs ds := by
  apply forall₂_of_mapM_eq_some _ hds
  intro c d hd
  exact forall₂_of_mapM_eq_some (fun l x hx => h l.var _ x hx) hd

/-- A solver that names everything can name any number of variables. -/
theorem Faithful.names (h : solver.Faithful) (hrange : range ≤ halfBound)
    (hall : ∀ v b, ∃ l, solver.lit? v b = some l) : solver.Names range := by
  constructor
  · exact hrange
  · intro v _ b
    obtain ⟨l, hl⟩ := hall v b
    exact ⟨l, hl, h v b l hl⟩

theorem exists_ofClauses? (hall : ∀ v b, ∃ l, solver.lit? v b = some l) (cs : List Clause) :
    ∃ ds, solver.ofClauses? cs = some ds := by
  have hmap {α β : Type} {f : α → Option β} (l : List α) (h : ∀ a, ∃ b, f a = some b) :
      ∃ bs, l.mapM f = some bs := by
    obtain ⟨bs, hbs, _⟩ := exists_mapM_eq_some (R := fun _ _ => True) (l := l) fun a _ =>
      (h a).imp fun b hb => ⟨hb, trivial⟩
    exact ⟨bs, hbs⟩
  exact hmap cs fun c => hmap c fun l => hall l.var _

theorem Says.holds_eq {l : Literal} {x : solver.Lit} (h : solver.Says l x) (val : Nat → Bool) :
    solver.holds val x = l.holds val := by
  rw [holds, Literal.holds, h.1, h.2]
  cases val l.var <;> cases l.negated <;> rfl

theorem exists_holds_iff (h : List.Forall₂ solver.Says c d) :
    (∃ x ∈ d, solver.holds val x = true) ↔ c.holds val = true := by
  rw [Clause.holds]
  induction h with
  | nil => simp
  | cons hl _ ih => rw [List.exists_mem_cons_iff, ih, hl.holds_eq, List.any_cons, Bool.or_eq_true]

theorem States.satisfies_iff (h : solver.States cs ds) :
    (∀ d ∈ ds, ∃ x ∈ d, solver.holds val x = true) ↔ Satisfies val cs := by
  unfold Satisfies
  induction h with
  | nil => simp
  | cons hc _ ih => rw [List.forall_mem_cons, List.forall_mem_cons, ih, exists_holds_iff hc]

theorem exists_of_mem_right {α β : Type} {R : α → β → Prop} {l : List α} {bs : List β} {b : β}
    (h : List.Forall₂ R l bs) (hb : b ∈ bs) : ∃ a ∈ l, R a b := by
  induction h with
  | nil => cases hb
  | @cons a b' _ _ hab _ ih =>
    rcases List.mem_cons.mp hb with rfl | hb
    · exact ⟨a, List.mem_cons_self, hab⟩
    · obtain ⟨x, hx, hxb⟩ := ih hb
      exact ⟨x, List.mem_cons_of_mem _ hx, hxb⟩

theorem States.indicesBelow (h : solver.States cs ds) (hbelow : VarsBelow n cs) :
    solver.IndicesBelow n ds := by
  intro d hd x hx
  obtain ⟨c, hc, hsays⟩ := exists_of_mem_right h hd
  obtain ⟨l, hl, hlx⟩ := exists_of_mem_right hsays hx
  rw [hlx.1]
  exact hbelow c hc l hl

end Solver

namespace Assignment

variable {v : Nat} {b : Bool} {values : List (Nat × Bool)}

/-- Values that are put in one after the other make of a variable what it was, where they agree with
that, and what they say, where they agree on it. -/
theorem value_foldl {a : Assignment} (hv : v < a.size) (hagree : ∀ x ∈ values, x.1 = v → x.2 = b)
    (hstart : a.value v = b ∨ ∃ x ∈ values, x.1 = v) :
    value (values.foldl (fun a (var, b) => a.setIfInBounds var b) a) v = b := by
  induction values generalizing a with
  | nil => simpa using hstart
  | cons x rest ih =>
    obtain ⟨hx, hrest⟩ := List.forall_mem_cons.mp hagree
    apply ih (by simpa using hv) hrest
    by_cases he : x.1 = v
    · left
      simp [value, he, hv, hx he]
    · rcases hstart with hstart | ⟨y, hy, hvar⟩
      · left
        simpa [value, Array.getElem?_setIfInBounds_ne he] using hstart
      · rcases List.mem_cons.mp hy with rfl | hy
        · exact absurd hvar he
        · exact Or.inr ⟨y, hy, hvar⟩

/-- A variable for which no value is listed is false. -/
theorem value_ofValues_of_not_listed {n : Nat} (h : ∀ x ∈ values, x.1 ≠ v) :
    (ofValues n values).value v = false := by
  have hfold (a : Assignment) :
      value (values.foldl (fun a (var, b) => a.setIfInBounds var b) a) v = a.value v := by
    induction values generalizing a with
    | nil => rfl
    | cons x rest ih =>
      obtain ⟨hx, hrest⟩ := List.forall_mem_cons.mp h
      refine (ih hrest _).trans ?_
      simp [value, Array.getElem?_setIfInBounds_ne hx]
  refine (hfold _).trans ?_
  by_cases hv : v < n
  · simp [value, hv]
  · simp [value, hv]

theorem value_ofValues {n : Nat} (hv : v < n) (hagree : ∀ x ∈ values, x.1 = v → x.2 = b)
    (hlisted : ∃ x ∈ values, x.1 = v) : (ofValues n values).value v = b :=
  value_foldl (by simpa using hv) hagree (Or.inr hlisted)

end Assignment

namespace Solver

variable {solver : Solver} {n : Nat} {cs : List Clause} {ds : List (List solver.Lit)}
  {ls : List solver.Lit}

@[simp] theorem size_assignment (solver : Solver) (n : Nat) (ls : List solver.Lit) :
    (solver.assignment n ls).size = n := Assignment.size_ofValues n _

/-- The assignment of a model gives each of its literals the value that makes it true. -/
theorem IsModel.value_assignment (h : solver.IsModel ds ls) {l : solver.Lit} (hl : l ∈ ls)
    (hn : solver.index l < n) :
    (solver.assignment n ls).value (solver.index l) = solver.isPositive l := by
  apply Assignment.value_ofValues hn
  · intro x hx hindex
    obtain ⟨l', hl', rfl⟩ := List.mem_map.mp hx
    exact h.consistent l' hl' l hl hindex
  · exact ⟨_, List.mem_map_of_mem hl, rfl⟩

/-- The assignment of a model satisfies the clauses that the solver's clauses come from. -/
theorem IsModel.satisfied?_assignment (h : solver.IsModel ds ls) (hstates : solver.States cs ds)
    (hbelow : VarsBelow n cs) : satisfied? (solver.assignment n ls) cs = some true := by
  rw [satisfied?_iff (by rwa [size_assignment]), ← hstates.satisfies_iff]
  intro d hd
  obtain ⟨l, hl, l', hl', hindex, hsign⟩ := h.meets d hd
  have hn : solver.index l' < n := hindex ▸ hstates.indicesBelow hbelow d hd l hl
  refine ⟨l, hl, ?_⟩
  rw [holds, ← hindex, h.value_assignment hl' hn, hsign, beq_self_eq_true]

/-- What a right reply refutes has no model. -/
theorem States.ne_of_unsatisfiable (h : solver.States cs ds)
    (hright : solver.Right ds .unsatisfiable) (hbelow : VarsBelow n cs) (model : Assignment)
    (hsize : model.size = n) : satisfied? model cs ≠ some true := by
  intro hsat
  rw [satisfied?_iff (by rwa [hsize]), ← h.satisfies_iff] at hsat
  exact hright _ hsat

end Solver

end AgentPaths
