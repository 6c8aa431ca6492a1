/-!
Pairs of positions in a list: each position with each later one, in increasing order.
-/
namespace AgentPaths

/-- Every element together with every element after it. -/
def pairs : List α → List (α × α)
  | [] => []
  | a :: rest => rest.map (fun b => (a, b)) ++ pairs rest

theorem length_pairs (l : List α) : (pairs l).length = l.length * (l.length - 1) / 2 := by
  induction l with
  | nil => simp [pairs]
  | cons a rest ih =>
    have hsucc : (rest.length + 1) * rest.length =
        rest.length * (rest.length - 1) + 2 * rest.length := by
      cases rest.length with
      | zero => rfl
      | succ n => rw [Nat.add_sub_cancel, Nat.mul_comm 2, ← Nat.mul_add, Nat.mul_comm]
    rw [pairs, List.length_append, List.length_map, ih, List.length_cons, Nat.add_sub_cancel, hsucc,
      Nat.add_mul_div_left _ _ (by decide), Nat.add_comm]

theorem pairs_map (f : α → β) (l : List α) :
    pairs (l.map f) = (pairs l).map fun (a, b) => (f a, f b) := by
  induction l with
  | nil => rfl
  | cons a rest ih => simp [pairs, ih]

/-- A pair of a selection is a pair of which both are selected. -/
theorem pairs_filterMap (f : α → Option β) (l : List α) : pairs (l.filterMap f) =
    (pairs l).filterMap fun (a, b) => (f a).bind fun x => (f b).map fun y => (x, y) := by
  induction l with
  | nil => rfl
  | cons a rest ih =>
    rw [pairs, List.filterMap_append, ← ih, List.filterMap_map]
    cases ha : f a with
    | none => simp [ha]
    | some x =>
      rw [List.filterMap_cons_some ha, pairs, List.map_filterMap]
      congr 2
      funext b
      simp [ha]

/-- The pairs are those of an earlier and a later position. -/
theorem mem_pairs_iff_getElem? {l : List α} {x y : α} :
    (x, y) ∈ pairs l ↔ ∃ i j : Nat, i < j ∧ l[i]? = some x ∧ l[j]? = some y := by
  induction l with
  | nil => simp [pairs]
  | cons a rest ih =>
    rw [pairs, List.mem_append, ih, List.mem_map]
    constructor
    · intro h
      rcases h with ⟨b, hb, he⟩ | ⟨i, j, hij, hx, hy⟩
      · cases he
        obtain ⟨j, hj⟩ := List.mem_iff_getElem?.mp hb
        exact ⟨0, j + 1, by omega, rfl, hj⟩
      · exact ⟨i + 1, j + 1, by omega, hx, hy⟩
    · intro h
      obtain ⟨i, j, hij, hx, hy⟩ := h
      obtain ⟨j, rfl⟩ := Nat.exists_eq_succ_of_ne_zero (show j ≠ 0 by omega)
      cases i with
      | zero =>
        cases hx
        exact Or.inl ⟨y, List.mem_of_getElem? hy, rfl⟩
      | succ i => exact Or.inr ⟨i, j, by omega, hx, hy⟩

theorem nodup_pairs {l : List α} (h : l.Nodup) : (pairs l).Nodup := by
  induction l with
  | nil => exact List.nodup_nil
  | cons a rest ih =>
    obtain ⟨ha, hrest⟩ := List.nodup_cons.mp h
    rw [pairs, List.nodup_append]
    refine ⟨List.pairwise_map.mpr (hrest.imp fun hne he => hne (Prod.mk.inj he).2), ih hrest, ?_⟩
    rintro x hx y hy rfl
    obtain ⟨b, _, rfl⟩ := List.mem_map.mp hx
    obtain ⟨i, _, _, hi, _⟩ := mem_pairs_iff_getElem?.mp hy
    exact ha (List.mem_of_getElem? hi)

/-- In an increasing list the pairs are the elements in increasing order. -/
theorem mem_pairs {l : List Nat} (h : l.Pairwise (· < ·)) {a b : Nat} :
    (a, b) ∈ pairs l ↔ a ∈ l ∧ b ∈ l ∧ a < b := by
  induction l with
  | nil => simp [pairs]
  | cons c rest ih =>
    obtain ⟨hc, hrest⟩ := List.pairwise_cons.mp h
    rw [pairs, List.mem_append, ih hrest, List.mem_map, List.mem_cons, List.mem_cons]
    constructor
    · rintro (⟨x, hx, he⟩ | ⟨ha, hb, hab⟩)
      · cases he
        exact ⟨Or.inl rfl, Or.inr hx, hc _ hx⟩
      · exact ⟨Or.inr ha, Or.inr hb, hab⟩
    · rintro ⟨rfl | ha, rfl | hb, hab⟩
      · omega
      · exact Or.inl ⟨b, hb, rfl⟩
      · have := hc _ ha
        omega
      · exact Or.inr ⟨ha, hb, hab⟩

theorem mem_pairs_range {n a b : Nat} : (a, b) ∈ pairs (List.range n) ↔ a < b ∧ b < n := by
  rw [mem_pairs List.pairwise_lt_range, List.mem_range, List.mem_range]
  omega

end AgentPaths
