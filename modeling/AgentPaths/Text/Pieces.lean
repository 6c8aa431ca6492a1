/-!
Lists cut into pieces. Every piece but the last ends with an element at which the list is cut, and
the pieces put together are the list again.
-/
namespace AgentPaths.Text

/-- Cuts a list behind every element that `p` accepts. -/
def pieces (p : α → Bool) (s : List α) : List (List α) :=
  s.foldr (fun a ls =>
    if p a then [a] :: ls else
      match ls with
      | [] => [[a]]
      | l :: rest => (a :: l) :: rest) []

theorem pieces_of_none {p : α → Bool} {s : List α} (hne : s ≠ []) (h : ∀ x ∈ s, p x = false) :
    pieces p s = [s] := by
  induction s with
  | nil => exact absurd rfl hne
  | cons a r ih =>
    rw [pieces, List.foldr_cons, ← pieces, h a List.mem_cons_self, if_neg Bool.false_ne_true]
    cases r with
    | nil => rfl
    | cons b q => rw [ih (by simp) fun x hx => h x (List.mem_cons_of_mem _ hx)]

theorem pieces_append_cons {p : α → Bool} {l : List α} {a : α} (hl : ∀ x ∈ l, p x = false)
    (ha : p a = true) (s : List α) :
    pieces p (l ++ a :: s) = (l ++ [a]) :: pieces p s := by
  induction l with
  | nil => simp [pieces, ha]
  | cons x r ih =>
    have hx := hl x List.mem_cons_self
    have hr := ih fun y hy => hl y (List.mem_cons_of_mem _ hy)
    rw [pieces] at hr ⊢
    simp only [List.cons_append, List.foldr_cons, hx, hr, Bool.false_eq_true, ↓reduceIte]

end AgentPaths.Text
