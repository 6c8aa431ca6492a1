import AgentPaths.Logic
import Mathlib.Data.List.Forall2
import Mathlib.Data.Set.Subsingleton

/-!
The clauses that let at most one literal of a list hold. What is counted are the places of the list,
not its variables: a literal that is said twice counts twice, and a literal and its opposite stand
for one true place between them. There is a clause for each pair of places and no other, and the
clauses stand in the order of these pairs.
-/
namespace AgentPaths

section Pairs

variable {α β : Type} {l : List α}

/-- Lists that agree place by place have pairs that do. -/
theorem forall₂_pairs {R : α → β → Prop} {l' : List β} (h : List.Forall₂ R l l') :
    List.Forall₂ (fun p q => R p.1 q.1 ∧ R p.2 q.2) (pairs l) (pairs l') := by
  induction h with
  | nil => exact .nil
  | cons hhead hrest ih =>
    apply List.rel_append _ ih
    rw [List.forall₂_map_left_iff, List.forall₂_map_right_iff]
    exact hrest.imp fun _ _ h => ⟨hhead, h⟩

/-- The pairs of an ordered list are in order, by their first elements and then by their second. -/
theorem pairwise_pairs {r : α → α → Prop} (h : l.Pairwise r) :
    (pairs l).Pairwise (Prod.Lex r r) := by
  induction l with
  | nil => exact .nil
  | cons a rest ih =>
    obtain ⟨ha, hrest⟩ := List.pairwise_cons.mp h
    rw [pairs, List.pairwise_append]
    refine ⟨List.pairwise_map.mpr (hrest.imp (.right a)), ih hrest, ?_⟩
    intro p hp q hq
    obtain ⟨b, _, rfl⟩ := List.mem_map.mp hp
    -- a pair of the rest begins with an element of the rest
    obtain ⟨i, _, _, hfirst, _⟩ := mem_pairs_iff_getElem?.mp hq
    exact .left b q.2 (ha q.1 (List.mem_of_getElem? hfirst))

/-- No pair has two elements with a property just if at most one place of the list has it. -/
theorem forall_pairs_not_both_iff {P : α → Prop} : (∀ p ∈ pairs l, ¬(P p.1 ∧ P p.2)) ↔
    {i : Nat | ∃ x, l[i]? = some x ∧ P x}.Subsingleton := by
  constructor
  · intro h i hi j hj
    obtain ⟨x, hx, hPx⟩ := hi
    obtain ⟨y, hy, hPy⟩ := hj
    rcases Nat.lt_trichotomy i j with hlt | heq | hlt
    · exact absurd ⟨hPx, hPy⟩ (h (x, y) (mem_pairs_iff_getElem?.mpr ⟨i, j, hlt, hx, hy⟩))
    · exact heq
    · exact absurd ⟨hPy, hPx⟩ (h (y, x) (mem_pairs_iff_getElem?.mpr ⟨j, i, hlt, hy, hx⟩))
  · intro h p hp hboth
    obtain ⟨i, j, hlt, hx, hy⟩ := mem_pairs_iff_getElem?.mp hp
    exact Nat.ne_of_lt hlt (h ⟨p.1, hx, hboth.1⟩ ⟨p.2, hy, hboth.2⟩)

/-- The pairs of an earlier and a later one of `n` places, in increasing order. -/
structure ListsPlacePairs (n : Nat) (ps : List (Nat × Nat)) : Prop where
  increasing : ps.Pairwise (Prod.Lex (· < ·) (· < ·))
  mem_iff : ∀ i j, (i, j) ∈ ps ↔ i < j ∧ j < n

theorem listsPlacePairs_range (n : Nat) : ListsPlacePairs n (pairs (List.range n)) where
  increasing := pairwise_pairs List.pairwise_lt_range
  mem_iff _ _ := mem_pairs_range

theorem forall₂_range (l : List α) :
    List.Forall₂ (fun i x => l[i]? = some x) (List.range l.length) l := by
  rw [List.forall₂_iff_get]
  refine ⟨List.length_range, ?_⟩
  intro i _ hi
  simp [hi]

end Pairs

/-- The places of a list at which a literal is true. -/
def truePlaces (a : Assignment) (ls : List Literal) : Set Nat :=
  {i | ∃ l, ls[i]? = some l ∧ l.holds? a = some true}

/-- The clause against the literals at two places of a list being true together. -/
def Forbids (ls : List Literal) (p : Nat × Nat) (c : Clause) : Prop :=
  ∃ x y, ls[p.1]? = some x ∧ ls[p.2]? = some y ∧ c = [x.neg, y.neg]

variable {ls : List Literal} {a : Assignment}

theorem atMostOne_eq (ls : List Literal) :
    atMostOne ls = (pairs ls).map fun p => [p.1.neg, p.2.neg] := by
  rw [atMostOne, pairs_map, List.map_map]
  rfl

theorem Clause.holds_neg_neg (val : Nat → Bool) (x y : Literal) :
    Clause.holds val [x.neg, y.neg] = true ↔ ¬(x.holds val = true ∧ y.holds val = true) := by
  simp [Clause.holds, imp_iff_not_or]

theorem satisfies_atMostOne {val : Nat → Bool} : Satisfies val (atMostOne ls) ↔
    {i : Nat | ∃ l, ls[i]? = some l ∧ l.holds val = true}.Subsingleton := by
  rw [Satisfies, atMostOne_eq, List.forall_mem_map, ← forall_pairs_not_both_iff]
  simp only [Clause.holds_neg_neg]

/-- The clauses name no variable that the list does not. -/
theorem var_lt_of_mem_atMostOne (h : ∀ l ∈ ls, l.var < a.size) :
    ∀ c ∈ atMostOne ls, ∀ l ∈ c, l.var < a.size := by
  rw [atMostOne_eq, List.forall_mem_map]
  intro p hp
  obtain ⟨i, j, _, hx, hy⟩ := mem_pairs_iff_getElem?.mp hp
  have hfirst : p.1.neg.var < a.size := h p.1 (List.mem_of_getElem? hx)
  have hsecond : p.2.neg.var < a.size := h p.2 (List.mem_of_getElem? hy)
  simp [hfirst, hsecond]

theorem truePlaces_eq (h : ∀ l ∈ ls, l.var < a.size) :
    truePlaces a ls = {i | ∃ l, ls[i]? = some l ∧ l.holds a.value = true} := by
  ext i
  apply exists_congr
  intro l
  apply and_congr_right
  intro hl
  rw [Literal.holds?_of_lt (h l (List.mem_of_getElem? hl)), Option.some.injEq]

/-- The clauses of a list, one for each pair of its places. -/
theorem forall₂_forbids (ls : List Literal) :
    List.Forall₂ (Forbids ls) (pairs (List.range ls.length)) (atMostOne ls) := by
  rw [atMostOne_eq, List.forall₂_map_right_iff]
  apply (forall₂_pairs (forall₂_range ls)).imp
  intro p q h
  exact ⟨q.1, q.2, h.1, h.2, rfl⟩

/-- Under an assignment of the variables of a list every clause has an answer, and they all hold
just if at most one place of the list is true. The clauses are those of the pairs of places, in
increasing order, and so half as many as there are ordered pairs. -/
theorem atMostOne_exact (ls : List Literal) :
    (∀ a : Assignment, (∀ l ∈ ls, l.var < a.size) →
      (∀ c ∈ atMostOne ls, (c.holds? a).isSome) ∧
      ((∀ c ∈ atMostOne ls, c.holds? a = some true) ↔ (truePlaces a ls).Subsingleton)) ∧
    (atMostOne ls).length = ls.length * (ls.length - 1) / 2 ∧
    ∃ ps, ListsPlacePairs ls.length ps ∧ List.Forall₂ (Forbids ls) ps (atMostOne ls) := by
  refine ⟨?_, length_atMostOne ls, _, listsPlacePairs_range ls.length, forall₂_forbids ls⟩
  intro a hcovers
  have hholds : ∀ c ∈ atMostOne ls, c.holds? a = some (c.holds a.value) := fun c hc =>
    Clause.holds?_of_lt (var_lt_of_mem_atMostOne hcovers c hc)
  constructor
  · intro c hc
    rw [hholds c hc]
    rfl
  · rw [truePlaces_eq hcovers, ← satisfies_atMostOne]
    apply forall₂_congr
    intro c hc
    rw [hholds c hc, Option.some.injEq]

/-- A literal that is said twice, one of the opposite sign, and the opposite of the first. -/
def mixedLiterals : List Literal := [⟨0, false⟩, ⟨1, true⟩, ⟨0, false⟩, ⟨0, true⟩]

/-- Where the first literal is true, its two places are one too many; where it is false, only the
last place is true. -/
theorem atMostOne_exact_mixed : (∀ l ∈ mixedLiterals, l.var < 2) ∧
    ¬(truePlaces #[true, true] mixedLiterals).Subsingleton ∧
    (truePlaces #[false, true] mixedLiterals).Subsingleton ∧
    (atMostOne mixedLiterals).length = 6 ∧
    ∃ ps, ListsPlacePairs 4 ps ∧
      List.Forall₂ (Forbids mixedLiterals) ps (atMostOne mixedLiterals) := by
  have hcovers : ∀ l ∈ mixedLiterals, l.var < 2 := by decide
  obtain ⟨hmeaning, hlisted⟩ := atMostOne_exact mixedLiterals
  refine ⟨hcovers, ?_, ?_, hlisted⟩
  · rw [← (hmeaning #[true, true] hcovers).2]
    decide
  · rw [← (hmeaning #[false, true] hcovers).2]
    decide

end AgentPaths
