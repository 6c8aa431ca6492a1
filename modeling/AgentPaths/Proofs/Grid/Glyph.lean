import AgentPaths.Grid.Drawing
import AgentPaths.Proofs.Grid.Recovery
import AgentPaths.Proofs.Schedule.Reading

/-!
What a cell of a drawing looks like. It has the letter of the last thing on its node, where later
things hide earlier ones, and shows the cell itself where there is nothing. A drawing is a table of
such cells.
-/
namespace AgentPaths.Grid

variable {α : Type} {g : Grid} {d : Dims} {p : α → Bool} {l : List α} {first c : Char}
  {text : Nat → List Char} {i : Nat}

/-- The text has `h` lines, each of them of `w` cells with single blanks between them. Nothing is
left after the last line. -/
def Tabled (text : List Char) (w h : Nat) (cell : Nat → Nat → List Char) : Prop :=
  (text.splitOn '\n').map (·.splitOn ' ') =
    ((List.range h).map fun y => (List.range w).map fun x => cell x y) ++ [[[]]]

/-- The character of a cell: the letter of the highest of the agents there, or else what the cell
is. -/
inductive Mark (first : Char) (there : Set Nat) (wall : Prop) : Char → Prop
  | agent {a : Nat} : IsGreatest there a → Mark first there wall (letter first a)
  | wall : there = ∅ → wall → Mark first there wall '#'
  | free : there = ∅ → ¬wall → Mark first there wall '.'

/-- The places of the things for which `p` holds. -/
def places (p : α → Bool) (l : List α) : Set Nat := {i | ∃ a, l[i]? = some a ∧ p a = true}

/-- One more thing is the last one if `p` holds of it, and does not count otherwise. -/
theorem last?_concat (p : α → Bool) (l : List α) (a : α) :
    last? p (l ++ [a]) = if p a then some l.length else last? p l := by
  rw [last?, List.zipIdx_append, List.filter_append]
  split
  next ha => simp [ha]
  next ha => simp [ha, last?]

theorem lt_of_mem_places (h : i ∈ places p l) : i < l.length := by
  obtain ⟨a, ha, -⟩ := h
  exact (List.getElem?_eq_some_iff.mp ha).1

theorem mem_places_concat {a : α} :
    i ∈ places p (l ++ [a]) ↔ i ∈ places p l ∨ i = l.length ∧ p a = true := by
  rcases Nat.lt_trichotomy i l.length with hi | rfl | hi
  · simp [places, List.getElem?_append_left hi, hi.ne]
  · simp [places]
  · have hnone : (l ++ [a])[i]? = none := List.getElem?_eq_none (by simp; omega)
    simp [places, hnone, hi.le, hi.ne']

theorem places_concat_of_not {a : α} (h : ¬p a = true) : places p (l ++ [a]) = places p l := by
  ext j
  simp [mem_places_concat, h]

theorem last?_eq_some : last? p l = some i ↔ IsGreatest (places p l) i := by
  induction l using List.reverseRecOn with
  | nil => simp [last?, IsGreatest, places]
  | append_singleton l a ih =>
    rw [last?_concat]
    split
    next ha =>
      have hlast : IsGreatest (places p (l ++ [a])) l.length := by
        refine ⟨mem_places_concat.mpr (Or.inr ⟨rfl, ha⟩), fun j hj => ?_⟩
        have := lt_of_mem_places hj
        rw [List.length_append, List.length_singleton] at this
        omega
      rw [Option.some.injEq]
      exact ⟨fun hi => hi ▸ hlast, fun hi => hlast.unique hi⟩
    next ha => rw [ih, places_concat_of_not ha]

theorem last?_eq_none : last? p l = none ↔ places p l = ∅ := by
  induction l using List.reverseRecOn with
  | nil => simp [last?, places]
  | append_singleton l a ih =>
    rw [last?_concat]
    split
    next ha =>
      have hlast : l.length ∈ places p (l ++ [a]) := mem_places_concat.mpr (Or.inr ⟨rfl, ha⟩)
      exact iff_of_false (by simp) (Set.nonempty_of_mem hlast).ne_empty
    next ha => rw [ih, places_concat_of_not ha]

/-- Only the places count. -/
theorem last?_congr {β : Type} {q : β → Bool} {l' : List β} (h : places p l = places q l') :
    last? p l = last? q l' := by
  ext i
  rw [last?_eq_some, last?_eq_some, h]

/-- What is drawn on a node when the last thing for which `p` holds is there. -/
def glyph (g : Grid) (first : Char) (p : α → Bool) (l : List α) (v : Nat) : Char :=
  ((last? p l).map (letter first)).getD (g.background v)

theorem upper_letter (a : Nat) :
    (letter 'A' a).isUpper = true ∧ (letter 'A' a).isLower = false := by
  have hall : ∀ k < 26, (Char.ofNat ('A'.toNat + k)).isUpper = true ∧
      (Char.ofNat ('A'.toNat + k)).isLower = false := by decide
  exact hall _ (Nat.mod_lt a (by decide))

theorem lower_letter (a : Nat) :
    (letter 'a' a).isLower = true ∧ (letter 'a' a).isUpper = false := by
  have hall : ∀ k < 26, (Char.ofNat ('a'.toNat + k)).isLower = true ∧
      (Char.ofNat ('a'.toNat + k)).isUpper = false := by decide
  exact hall _ (Nat.mod_lt a (by decide))

theorem mark_glyph (g : Grid) (first : Char) (p : α → Bool) (l : List α) (v : Nat) :
    Mark first (places p l) (g.dims.cell v ∈ g.walls) (g.glyph first p l v) := by
  unfold glyph
  cases hlast : last? p l with
  | some a => exact .agent (last?_eq_some.mp hlast)
  | none =>
    have hnone := last?_eq_none.mp hlast
    by_cases hwall : g.dims.cell v ∈ g.walls
    · have hback : g.background v = '#' := by simp [background, hwall]
      exact hback ▸ .wall hnone hwall
    · have hback : g.background v = '.' := by simp [background, hwall]
      exact hback ▸ .free hnone hwall

/-- The marks of a cell are those of the node of that number. -/
theorem mark_cell {x y : Nat} {there : Set Nat} (hx : x < g.dims.width)
    (h : Mark first there (g.dims.cell (g.dims.node ⟨x, y⟩) ∈ g.walls) c) :
    Mark first there (⟨x, y⟩ ∈ g.walls) c := by
  have hcell : g.dims.cell (g.dims.node ⟨x, y⟩) = ⟨x, y⟩ := Dims.cell_node hx
  rwa [hcell] at h

/-- Whatever holds of the letters and the marks of empty cells holds of all marks. -/
theorem Mark.of_forall {there : Set Nat} {wall : Prop} {q : Char → Prop}
    (h : Mark first there wall c) (hletter : ∀ a, q (letter first a)) (hwall : q '#')
    (hfree : q '.') : q c := by
  cases h with
  | agent ha => exact hletter _
  | wall => exact hwall
  | free => exact hfree

theorem letter_ne {b : Char} (hfirst : first = 'A' ∨ first = 'a')
    (hb : b.isUpper = false ∧ b.isLower = false) (a : Nat) : letter first a ≠ b := by
  rintro rfl
  rcases hfirst with rfl | rfl
  · exact absurd (upper_letter a).1 (by simp [hb.1])
  · exact absurd (lower_letter a).1 (by simp [hb.2])

/-- What is drawn in a cell is neither a blank nor the end of a line. -/
theorem visible_glyph (g : Grid) (hfirst : first = 'A' ∨ first = 'a') (p : α → Bool) (l : List α)
    (v : Nat) : ' ' ≠ g.glyph first p l v ∧ '\n' ≠ g.glyph first p l v :=
  (mark_glyph g first p l v).of_forall (q := fun c => ' ' ≠ c ∧ '\n' ≠ c)
    (fun a => ⟨(letter_ne hfirst (by decide) a).symm, (letter_ne hfirst (by decide) a).symm⟩)
    (by decide) (by decide)

theorem filter_intercalate {q : Char → Bool} (hc : q c = false) (ls : List (List Char)) :
    ([c].intercalate ls).filter q = ls.flatMap (·.filter q) := by
  induction ls with
  | nil => rfl
  | cons l ls ih =>
    cases ls with
    | nil => simp
    | cons l' ls =>
      rw [List.intercalate_cons_cons, List.filter_append, List.filter_append, ih,
        List.flatMap_cons, List.filter_singleton, hc]
      simp

theorem notMem_iff_filter {l : List Char} : c ∉ l ↔ l.filter (· == c) = [] := by
  simp [List.filter_eq_nil_iff, List.forall_mem_ne']

theorem tabled_draw (h : ∀ v, ' ' ∉ text v ∧ '\n' ∉ text v) :
    Tabled (draw d text) d.width d.height fun x y => text (x + y * d.width) := by
  have hlines : ∀ row ∈ (List.range d.height).map fun y => [' '].intercalate
      ((List.range d.width).map fun x => text (d.node ⟨x, y⟩)), '\n' ∉ row := by
    rw [List.forall_mem_map]
    intro y _
    rw [notMem_iff_filter, filter_intercalate rfl, List.flatMap_eq_nil_iff, List.forall_mem_map]
    exact fun x _ => notMem_iff_filter.mp (h _).2
  rw [Tabled, draw, Schedule.splitOn_unlines hlines, List.map_append, List.map_map]
  congr 1
  refine List.map_congr_left fun y _ => ?_
  refine List.splitOn_intercalate ' ' ?_ ?_
  · rw [List.forall_mem_map]
    exact fun x _ => (h _).1
  · simp [Nat.ne_of_gt d.width_pos]

end AgentPaths.Grid
