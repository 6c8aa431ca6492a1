import AgentPaths.Formula

/-!
A key table is the list of its keys in the order in which they were first asked for: the variable of
a key is its place in that list. Asking for a key leaves the list alone or adds the key at its end.
-/
namespace AgentPaths.KeyTable

/-- The keys of `ks` have the variables `0, 1, …` in this order, and no other key has one. -/
structure Lists (T : KeyTable) (ks : List Key) : Prop where
  covers : ∀ k ∈ ks, T.Covers k
  count : T.count = ks.length
  find : ∀ k i, T.find? k = some i ↔ ks[i]? = some k

variable {T : KeyTable} {ks : List Key} {k : Key} {i : Nat}

/-- Fewer times fit if more do. -/
theorem Fits.mono [Memory] {m m' agents nodes : Nat} (h : Fits m' agents nodes) (hle : m ≤ m') :
    Fits m agents nodes := by
  have hsucc : m + 1 ≤ m' + 1 := Nat.succ_le_succ hle
  rw [fits_iff] at h ⊢
  constructor
  · exact Nat.lt_of_le_of_lt (Nat.mul_le_mul_right _ (Nat.mul_le_mul_right _ hsucc)) h.1
  · refine Memory.lack?_mono (Nat.mul_le_mul_left 16 ?_) h.2
    exact Nat.mul_le_mul_right _ (Nat.mul_le_mul_right _ hsucc)

theorem lists_empty (m a n : Nat) : (empty m a n).Lists [] where
  covers _ hk := absurd hk List.not_mem_nil
  count := rfl
  find k i := by simp

namespace Lists

theorem lt_count (h : T.Lists ks) (hi : T.find? k = some i) : i < T.count := by
  rw [h.count]
  exact (List.getElem?_eq_some_iff.mp ((h.find k i).mp hi)).1

/-- Different keys have different variables. -/
theorem find_inj (h : T.Lists ks) {k' : Key} (hk : T.find? k = some i) (hk' : T.find? k' = some i) :
    k = k' :=
  Option.some.inj (((h.find k i).mp hk).symm.trans ((h.find k' i).mp hk'))

theorem mem_iff (h : T.Lists ks) : k ∈ ks ↔ ∃ i, T.find? k = some i := by
  rw [List.mem_iff_getElem?]
  exact exists_congr fun i => (h.find k i).symm

theorem find?_eq_none (h : T.Lists ks) : T.find? k = none ↔ k ∉ ks := by
  rw [h.mem_iff, Option.eq_none_iff_forall_ne_some]
  exact ⟨fun hne ⟨i, hi⟩ => hne i hi, fun hne i hi => hne ⟨i, hi⟩⟩

theorem intern_fst (h : T.Lists ks) (hk : k ∉ ks) : (T.intern k).1 = T.count := by
  simp [intern, h.find?_eq_none.mpr hk]

/-- A new key gets the next variable. -/
theorem intern_of_not_mem (h : T.Lists ks) (hcovers : T.Covers k) (hk : k ∉ ks) :
    (T.intern k).2.Lists (ks ++ [k]) where
  covers k' hk' := by
    rw [covers_intern]
    rcases List.mem_append.mp hk' with hk' | hk'
    · exact h.covers k' hk'
    · rwa [List.mem_singleton.mp hk']
  count := by simp [intern, h.find?_eq_none.mpr hk, h.count]
  find k' i := by
    rw [find?_intern hcovers, h.intern_fst hk, h.count]
    split
    next heq =>
      subst heq
      rw [Option.some.injEq]
      constructor
      · intro hi
        subst hi
        simp
      · intro hi
        rw [List.getElem?_append] at hi
        split at hi
        next => exact absurd (List.mem_of_getElem? hi) hk
        next hge =>
          have := (List.getElem?_eq_some_iff.mp hi).1
          simp only [List.length_singleton] at this
          omega
    next hne =>
      rw [h.find, List.getElem?_append]
      split
      next => rfl
      next hge =>
        rw [List.getElem?_eq_none (by omega)]
        simp only [reduceCtorEq, false_iff]
        intro hi
        exact hne (List.mem_singleton.mp (List.mem_of_getElem? hi))

end Lists

/-- The makespan, the number of agents and the number of nodes that a table is laid out for. -/
def sizes (T : KeyTable) : Nat × Nat × Nat := (T.makespan, T.agents, T.nodes)

theorem sizes_intern (T : KeyTable) (k : Key) : (T.intern k).2.sizes = T.sizes := by
  unfold intern
  split <;> rfl

/-- The table after asking for each key of a list in turn. -/
def internAll (T : KeyTable) (ks : List Key) : KeyTable := ks.foldl (fun T k => (T.intern k).2) T

@[simp] theorem internAll_nil (T : KeyTable) : T.internAll [] = T := rfl

@[simp] theorem internAll_cons (T : KeyTable) (k : Key) (ks : List Key) :
    T.internAll (k :: ks) = (T.intern k).2.internAll ks := rfl

theorem internAll_append (T : KeyTable) (ks new : List Key) :
    T.internAll (ks ++ new) = (T.internAll ks).internAll new := List.foldl_append

@[simp] theorem sizes_internAll (T : KeyTable) (ks : List Key) :
    (T.internAll ks).sizes = T.sizes := by
  induction ks generalizing T with
  | nil => rfl
  | cons k ks ih => rw [internAll_cons, ih, sizes_intern]

@[simp] theorem makespan_internAll (T : KeyTable) (ks : List Key) :
    (T.internAll ks).makespan = T.makespan := congrArg Prod.fst (sizes_internAll T ks)

@[simp] theorem nodes_internAll (T : KeyTable) (ks : List Key) :
    (T.internAll ks).nodes = T.nodes := congrArg (fun s => s.2.2) (sizes_internAll T ks)

/-- Asking for new keys adds them to the list in their order. -/
theorem Lists.internAll {new : List Key} (h : T.Lists ks) (hcovers : ∀ k ∈ new, T.Covers k)
    (hnodup : (ks ++ new).Nodup) : (T.internAll new).Lists (ks ++ new) := by
  induction new generalizing T ks with
  | nil => simpa using h
  | cons k rest ih =>
    have hk : k ∉ ks := fun hmem =>
      (List.nodup_append.mp hnodup).2.2 k hmem k List.mem_cons_self rfl
    have hstep := h.intern_of_not_mem (hcovers k List.mem_cons_self) hk
    rw [internAll_cons, List.append_cons]
    rw [List.append_cons] at hnodup
    apply ih hstep _ hnodup
    intro k' hk'
    exact covers_intern.mpr (hcovers k' (List.mem_cons_of_mem _ hk'))

end AgentPaths.KeyTable
