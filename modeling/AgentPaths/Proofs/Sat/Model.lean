import AgentPaths.Proofs.Sat.Branching
import AgentPaths.Proofs.Sat.Contract
import AgentPaths.Proofs.Sat.Solver

/-!
The program's own solver is right. A search for values of places carries over to the variables at
these places, since renaming one way and back changes no literal of the clauses. Nothing is asked of
the exploration: its models are looked at again and its certificates are checked.
-/
namespace AgentPaths.Sat

variable {val : Nat → Bool} {cs : List (List Code)} {c : List Code} {vs : List Nat} {u v : Nat}

/-- A search that misses no model and finds no other values. -/
structure Exact (find? : Nat → List (List Code) → Option (Nat → Bool)) : Prop where
  models : ∀ {n cs val}, find? n cs = some val → Models val cs
  isSome : ∀ {n cs val}, Models val cs → (∀ c ∈ cs, ∀ l ∈ c, Code.var l < n) →
    (find? n cs).isSome = true

/-- The search in a fixed order comes to an end with the first model. -/
theorem exists_first {n : Nat} (hmodels : Models val cs)
    (hbelow : ∀ c ∈ cs, ∀ l ∈ c, Code.var l < n) :
    ∃ found, (Index.ofClauses n cs).least? = some found ∧ Precedes n found.value val :=
  Index.exists_least? (x := .ofClauses n cs) hmodels hbelow

theorem models_of_first {n : Nat} {found : Falses}
    (h : (Index.ofClauses n cs).least? = some found) : Models found.value cs :=
  Index.models_of_least? h

theorem values?_exact : Exact values? where
  models {n cs val} h := by
    have hfirst (h : (Index.ofClauses n cs).least?.map Falses.value = some val) :
        Models val cs := by
      obtain ⟨found, hfound, rfl⟩ := Option.map_eq_some_iff.mp h
      exact models_of_first hfound
    unfold values? at h
    split at h
    next t _ =>
      split at h
      next hall =>
        cases h
        intro c hc
        exact List.any_eq_true.mp (List.all_eq_true.mp hall c hc)
      next => exact hfirst h
    next =>
      split at h
      next => cases h
      next => exact hfirst h
    next => exact hfirst h
  isSome {n cs val} hmodels hbelow := by
    obtain ⟨found, hfound, _⟩ := exists_first hmodels hbelow
    unfold values?
    rw [hfound]
    split
    next =>
      split
      next => rfl
      next => rfl
    next =>
      split
      next hrefutes =>
        exact absurd (Ledger.sound_start n hmodels) (Ledger.not_sound_of_refutes hrefutes val)
      next => rfl
    next => rfl

theorem exists_leastValues? {n : Nat} (hmodels : Models val cs)
    (hbelow : ∀ c ∈ cs, ∀ l ∈ c, Code.var l < n) :
    ∃ found, leastValues? n cs = some found ∧ Precedes n found val := by
  obtain ⟨found, hfound, hprecedes⟩ := exists_first hmodels hbelow
  obtain ⟨any, hany⟩ := Option.isSome_iff_exists.mp (values?_exact.isSome hmodels hbelow)
  have hleast : leastValues? n cs = some found.value := by
    rw [leastValues?, hany, hfound]
    rfl
  exact ⟨found.value, hleast, hprecedes⟩

theorem leastValues?_exact : Exact leastValues? where
  models h := by
    obtain ⟨_, _, h⟩ := Option.bind_eq_some_iff.mp h
    obtain ⟨found, hfound, rfl⟩ := Option.map_eq_some_iff.mp h
    exact models_of_first hfound
  isSome hmodels hbelow := by
    obtain ⟨found, hfound, _⟩ := exists_leastValues? hmodels hbelow
    rw [hfound]
    rfl

/-- The variables collected from clauses are those of their literals, besides earlier ones. -/
theorem mem_collect (s : Std.TreeSet Nat) :
    v ∈ cs.foldl (fun vs c => c.foldl (fun vs l => vs.insert (Code.var l)) vs) s ↔
      v ∈ s ∨ ∃ c ∈ cs, ∃ l ∈ c, Code.var l = v := by
  have hclause (c : List Code) (s : Std.TreeSet Nat) :
      v ∈ c.foldl (fun vs l => vs.insert (Code.var l)) s ↔ v ∈ s ∨ ∃ l ∈ c, Code.var l = v := by
    induction c generalizing s with
    | nil => simp
    | cons l rest ih =>
      rw [List.foldl_cons, ih, Std.TreeSet.mem_insert, Nat.compare_eq_eq, List.exists_mem_cons_iff,
        or_comm (a := Code.var l = v), or_assoc]
  induction cs generalizing s with
  | nil => simp
  | cons c rest ih =>
    refine (ih _).trans ?_
    rw [hclause, List.exists_mem_cons_iff, or_assoc]

theorem mem_vars : v ∈ vars cs ↔ ∃ c ∈ cs, ∃ l ∈ c, Code.var l = v := by
  rw [vars, Std.TreeSet.mem_toList, mem_collect]
  simp

theorem vars_lt (cs : List (List Code)) : (vars cs).Pairwise (· < ·) := by
  apply Std.TreeSet.ordered_toList.imp
  intro u v h
  exact Nat.compare_eq_lt.mp h

/-- A variable stands at the place that is looked up for it. -/
theorem getElem?_rank (hvs : vs.Pairwise (· < ·)) (hv : v ∈ vs) :
    vs[rank (places vs) v]? = some v := by
  obtain ⟨i, hi⟩ := List.mem_iff_getElem?.mp hv
  have hdistinct : vs.zipIdx.Pairwise fun x y => (x.1 == y.1) = false := by
    have hfirst : (vs.zipIdx.map Prod.fst).Pairwise fun u v => (u == v) = false := by
      rw [List.zipIdx_map_fst]
      exact hvs.imp fun h => beq_false_of_ne (Nat.ne_of_lt h)
    rwa [List.pairwise_map] at hfirst
  have hplace : (places vs)[v]? = some i :=
    Std.HashMap.getElem?_ofList_of_mem (beq_self_eq_true v) hdistinct
      (List.mk_mem_zipIdx_iff_getElem?.mpr hi)
  rw [rank, Std.HashMap.getD_eq_getD_getElem?, hplace]
  exact hi

/-- Values of places make a literal true when the values looked up do. -/
theorem holds_compact (places : Std.HashMap Nat Nat) (val : Nat → Bool) (l : Code) :
    Code.holds val (compact places l) = Code.holds (fun v => val (rank places v)) l := by
  simp [Code.holds, compact]

theorem models_compact (places : Std.HashMap Nat Nat) :
    Models val (cs.map (·.map (compact places))) ↔ Models (fun v => val (rank places v)) cs := by
  simp [Models, holds_compact]

/-- The values that a place gets from the variable that stands there. -/
def atPlaces (vs : List Nat) (val : Nat → Bool) (i : Nat) : Bool := val (vs.getD i 0)

theorem atPlaces_rank (hvs : vs.Pairwise (· < ·)) (hv : v ∈ vs) (val : Nat → Bool) :
    atPlaces vs val (rank (places vs) v) = val v := by
  rw [atPlaces, List.getD_eq_getElem?_getD, getElem?_rank hvs hv]
  rfl

theorem models_atPlaces (h : Models val cs) :
    Models (atPlaces (vars cs) val)
      (cs.map (·.map (compact (places (vars cs))))) := by
  rw [models_compact]
  intro c hc
  obtain ⟨l, hl, htrue⟩ := h c hc
  use l, hl
  rwa [Code.holds, atPlaces_rank (vars_lt cs) (mem_vars.mpr ⟨c, hc, l, hl, rfl⟩)]

theorem rank_lt (hvs : vs.Pairwise (· < ·)) (hv : v ∈ vs) : rank (places vs) v < vs.length :=
  (List.getElem?_eq_some_iff.mp (getElem?_rank hvs hv)).1

theorem rank_getElem (hvs : vs.Pairwise (· < ·)) {i : Nat} (hi : i < vs.length) :
    rank (places vs) vs[i] = i := by
  have hmem : vs[i] ∈ vs := List.getElem_mem hi
  have hnodup : vs.Nodup := hvs.imp Nat.ne_of_lt
  apply (List.getElem?_inj (rank_lt hvs hmem) hnodup).mp
  rw [getElem?_rank hvs hmem, List.getElem?_eq_getElem hi]

theorem compact_below : ∀ c ∈ cs.map (·.map (compact (places (vars cs)))), ∀ l ∈ c,
    Code.var l < (vars cs).length := by
  intro d hd x hx
  obtain ⟨c, hc, rfl⟩ := List.mem_map.mp hd
  obtain ⟨l, hl, rfl⟩ := List.mem_map.mp hx
  rw [compact, Code.var_ofValue]
  exact rank_lt (vars_lt cs) (mem_vars.mpr ⟨c, hc, l, hl, rfl⟩)

section

variable {find? : Nat → List (List Code) → Option (Nat → Bool)} {ls : List Code}

/-- The literals found are those of a model, one for every variable of the clauses. -/
theorem Exact.exists_model (h : Exact find?) (hls : literals? find? cs = some ls) :
    ∃ val, Models val cs ∧ ls = (vars cs).map fun v => .ofValue v (val v) := by
  obtain ⟨val, hval, hls⟩ := Option.map_eq_some_iff.mp hls
  exact ⟨_, (models_compact _).mp (h.models hval), hls.symm⟩

theorem Exact.not_models (h : Exact find?) (hls : literals? find? cs = none) (val : Nat → Bool) :
    ¬Models val cs := by
  intro hmodels
  have hsome := h.isSome (models_atPlaces hmodels) compact_below
  rw [Option.map_eq_none_iff.mp hls] at hsome
  cases hsome

end

/-- The first model of the places is the first one of the variables that stand there. -/
theorem leastModel?_precedes {ls : List Code} (hls : leastModel? cs = some ls) :
    ∃ val, Models val cs ∧ ls = ((vars cs).map fun v => .ofValue v (val v)) ∧
      ∀ val', Models val' cs → ∀ v ∈ vars cs, (∀ u ∈ vars cs, u < v → val u = val' u) →
        val v = true → val' v = true := by
  obtain ⟨val, hval, hls⟩ := Option.map_eq_some_iff.mp hls
  refine ⟨_, (models_compact _).mp (leastValues?_exact.models hval), hls.symm, ?_⟩
  intro val' hmodels v hv hbefore htrue
  obtain ⟨found, hfound, hprecedes⟩ := exists_leastValues? (models_atPlaces hmodels) compact_below
  cases hval.symm.trans hfound
  have hvs := vars_lt cs
  rw [← atPlaces_rank hvs hv val']
  apply hprecedes _ (rank_lt hvs hv) _ htrue
  intro i hi
  have hlt : i < (vars cs).length := Nat.lt_trans hi (rank_lt hvs hv)
  have hmem : (vars cs)[i] ∈ vars cs := List.getElem_mem hlt
  have hbelow : (vars cs)[i] < v := by
    have he := (List.getElem?_eq_some_iff.mp (getElem?_rank hvs hv)).2
    rw [← he]
    exact List.pairwise_iff_getElem.mp hvs _ _ _ _ hi
  have hsame := hbefore _ hmem hbelow
  rw [rank_getElem hvs hlt] at hsame
  rw [hsame, ← atPlaces_rank hvs hmem val', rank_getElem hvs hlt]

end AgentPaths.Sat

namespace AgentPaths.Solver

theorem any_faithful : any.Faithful := by
  intro v b l hl
  cases hl
  exact ⟨Sat.Code.var_ofValue v b, Sat.Code.isPositive_ofValue v b⟩

theorem exists_lit_any (v : Nat) (b : Bool) : ∃ l, any.lit? v b = some l := ⟨_, rfl⟩

/-- The literals of the variables of clauses that are true in a model of these are a model in the
solver's sense. -/
theorem isModel_any {val : Nat → Bool} {cs : List (List Sat.Code)} (h : Sat.Models val cs) :
    any.IsModel cs ((Sat.vars cs).map fun v => .ofValue v (val v)) := by
  have hlisted {c : List Sat.Code} {l : Sat.Code} (hc : c ∈ cs) (hl : l ∈ c) :
      Sat.Code.ofValue l.var (val l.var) ∈ (Sat.vars cs).map fun v => .ofValue v (val v) :=
    List.mem_map_of_mem (Sat.mem_vars.mpr ⟨c, hc, l, hl, rfl⟩)
  constructor
  · intro l hl l' hl' hindex
    obtain ⟨v, _, rfl⟩ := List.mem_map.mp hl
    obtain ⟨v', _, rfl⟩ := List.mem_map.mp hl'
    have he : v = v' := by simpa [any] using hindex
    rw [he]
  · intro c hc l hl
    exact ⟨_, hlisted hc hl, Sat.Code.var_ofValue _ _⟩
  · intro c hc
    obtain ⟨l, hl, htrue⟩ := h c hc
    refine ⟨l, hl, _, hlisted hc hl, Sat.Code.var_ofValue _ _, ?_⟩
    rw [Sat.Code.holds, beq_iff_eq] at htrue
    exact (Sat.Code.isPositive_ofValue _ _).trans htrue

theorem any_keeps : any.Keeps := by
  constructor
  · exact any_faithful
  intro cs
  dsimp only [any]
  split
  next hnone => exact fun val => Sat.values?_exact.not_models hnone val
  next ls hsome =>
    obtain ⟨val, hmodels, rfl⟩ := Sat.values?_exact.exists_model hsome
    exact isModel_any hmodels

end AgentPaths.Solver

namespace AgentPaths

variable {n : Nat} {cs : List Clause} {m : Assignment}

theorem states_codes (cs : List Clause) : Solver.any.States cs (codes cs) := by
  refine List.forall₂_map_right_iff.mpr (List.forall₂_same.mpr fun c _ => ?_)
  refine List.forall₂_map_right_iff.mpr (List.forall₂_same.mpr fun l _ => ?_)
  exact ⟨Sat.Code.var_ofValue _ _, Sat.Code.isPositive_ofValue _ _⟩

/-- Among the assignments of `n` variables that satisfy the clauses, this one comes first. -/
structure IsFirst (n : Nat) (cs : List Clause) (m : Assignment) : Prop where
  size : m.size = n
  satisfied : satisfied? m cs = some true
  precedes : ∀ a : Assignment, a.size = n → satisfied? a cs = some true →
    Sat.Precedes n m.value a.value

theorem isFirst_of_leastAssignment? (hbelow : VarsBelow n cs) (h : leastAssignment? n cs = some m) :
    IsFirst n cs m := by
  obtain ⟨ls, hls, rfl⟩ := Option.map_eq_some_iff.mp h
  obtain ⟨val, hmodels, rfl, hfirst⟩ := Sat.leastModel?_precedes hls
  constructor
  · exact Assignment.size_ofValues ..
  · exact (Solver.isModel_any hmodels).satisfied?_assignment (states_codes cs) hbelow
  · intro a hsize hsat v hv hbefore htrue
    simp only [List.map_map, Function.comp_def, Sat.Code.var_ofValue, Sat.Code.isPositive_ofValue]
      at hbefore htrue
    have hmem : v ∈ Sat.vars (codes cs) := by
      apply Classical.byContradiction
      intro hmem
      rw [Assignment.value_ofValues_of_not_listed] at htrue
      · cases htrue
      · intro x hx he
        obtain ⟨u, hu, rfl⟩ := List.mem_map.mp hx
        exact hmem (he ▸ hu)
    have hlisted {u : Nat} (hu : u ∈ Sat.vars (codes cs)) (hn : u < n) :
        (Assignment.ofValues n ((Sat.vars (codes cs)).map fun v => (v, val v))).value u =
          val u := by
      apply Assignment.value_ofValues hn
      · intro x hx he
        obtain ⟨w, _, rfl⟩ := List.mem_map.mp hx
        exact congrArg val he
      · exact ⟨_, List.mem_map_of_mem hu, rfl⟩
    have hmodels' : Sat.Models a.value (codes cs) := by
      rw [satisfied?_iff (by rwa [hsize])] at hsat
      exact (states_codes cs).satisfies_iff.mpr hsat
    apply hfirst a.value hmodels' v hmem
    · intro u hu hlt
      rw [← hlisted hu (Nat.lt_trans hlt hv)]
      exact hbefore u hlt
    · rw [← hlisted hmem hv]
      exact htrue

theorem not_satisfied_of_leastAssignment? (hbelow : VarsBelow n cs)
    (h : leastAssignment? n cs = none) (a : Assignment) (hsize : a.size = n) :
    satisfied? a cs ≠ some true := by
  apply (states_codes cs).ne_of_unsatisfiable _ hbelow a hsize
  exact fun val => Sat.leastValues?_exact.not_models (Option.map_eq_none_iff.mp h) val

theorem Oracle.least_keeps : least.Keeps := by
  intro n cs hbelow _ poll _
  refine ⟨_, rfl, fun hclear => ?_⟩
  rw [hclear 0, if_neg (by decide)]
  split
  next hnone => exact not_satisfied_of_leastAssignment? hbelow hnone
  next m hm =>
    have hfirst := isFirst_of_leastAssignment? hbelow hm
    exact ⟨hfirst.size, hfirst.satisfied⟩

end AgentPaths
