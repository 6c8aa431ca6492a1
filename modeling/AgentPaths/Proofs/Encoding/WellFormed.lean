import AgentPaths.Proofs.Encoding.Distinct
import AgentPaths.Proofs.Encoding.Models

/-!
What the formula of a problem looks like. All its literals are of variables that have been given
out, so that an assignment of the variables answers every question about it; no clause is empty or
names a variable twice, no move leads nowhere, and if there is a step at all no clause comes twice.
-/
namespace AgentPaths

open KeyLiteral (here away)

/-- The keys that have a variable. -/
def KeyTable.Knows (T : KeyTable) (k : Key) : Prop := ∃ i, T.find? k = some i

/-- Clauses within an assignment have a truth value. -/
theorem exists_satisfied? {values : Assignment} {cs : List Clause}
    (h : ∀ c ∈ cs, ∀ l ∈ c, l.var < values.size) : ∃ b, satisfied? values cs = some b := by
  induction cs with
  | nil => exact ⟨true, rfl⟩
  | cons c rest ih =>
    obtain ⟨hc, hrest⟩ := List.forall_mem_cons.mp h
    rw [satisfied?, Clause.holds?_of_lt hc]
    cases c.holds values.value with
    | false => exact ⟨false, rfl⟩
    | true => exact ih hrest

namespace Rule

variable {T : KeyTable} {ks : List Key} {r s : Rule} {c d : Clause} {i : Nat}

/-- The literals of a rule whose keys have a variable. -/
def literals (T : KeyTable) (r : Rule) : Clause :=
  r.filterMap fun l => (T.find? l.key).map fun i => ⟨i, l.negated⟩

/-- The clause of a rule, literal by literal. -/
theorem literals_of_clause? (h : r.clause? T.literals = some c) :
    r.Kept T.Knows ∧ c = r.literals T := by
  induction r generalizing c with
  | nil =>
    cases h
    exact ⟨by simp [Kept], rfl⟩
  | cons l rest ih =>
    rw [clause?, KeyTable.literals] at h
    cases hi : T.find? l.key with
    | none =>
      cases hneg : l.negated with
      | true => simp [hi, hneg] at h
      | false =>
        simp only [hi, hneg, Option.map_none, Bool.false_eq_true, if_false] at h
        obtain ⟨hkept, rfl⟩ := ih h
        have hskip : literals T (l :: rest) = literals T rest := by simp [literals, hi]
        exact ⟨kept_cons.mpr ⟨by simp [hneg], hkept⟩, hskip.symm⟩
    | some i =>
      have hlit : (if l.negated then (Literal.positive i).neg else .positive i) =
          ⟨i, l.negated⟩ := by
        cases l.negated <;> rfl
      simp only [hi, Option.map_some, hlit] at h
      obtain ⟨c', hc', rfl⟩ := Option.map_eq_some_iff.mp h
      obtain ⟨hkept, rfl⟩ := ih hc'
      refine ⟨kept_cons.mpr ⟨fun _ => ⟨i, hi⟩, hkept⟩, ?_⟩
      simp [literals, hi]

theorem mem_literals {y : Literal} : y ∈ r.literals T ↔
    ∃ l ∈ r, T.find? l.key = some y.var ∧ l.negated = y.negated := by
  obtain ⟨i, neg⟩ := y
  simp only [literals, List.mem_filterMap, Option.map_eq_some_iff, Literal.mk.injEq]
  constructor
  · intro h
    obtain ⟨l, hl, i, hi, rfl, rfl⟩ := h
    exact ⟨l, hl, hi, rfl⟩
  · intro h
    obtain ⟨l, hl, hi, hneg⟩ := h
    exact ⟨l, hl, i, hi, rfl, hneg⟩

/-- A literal whose key has a variable stands in the clause just if it stands in the rule. -/
theorem mem_literals_iff (h : T.Lists ks) {l : KeyLiteral} (hi : T.find? l.key = some i) :
    ⟨i, l.negated⟩ ∈ r.literals T ↔ l ∈ r := by
  rw [mem_literals]
  constructor
  · intro hmem
    obtain ⟨l', hl', hi', hneg⟩ := hmem
    have hl : l' = l := by
      cases l
      cases l'
      cases h.find_inj hi hi'
      cases hneg
      rfl
    exact hl ▸ hl'
  · intro hl
    exact ⟨l, hl, hi, rfl⟩

theorem nodup_vars_literals (h : T.Lists ks) (hr : (r.map KeyLiteral.key).Nodup) :
    ((r.literals T).map Literal.var).Nodup := by
  have hvars : (r.literals T).map Literal.var = (r.map KeyLiteral.key).filterMap T.find? := by
    simp [literals, List.map_filterMap, List.filterMap_map, Function.comp_def]
  rw [hvars]
  exact hr.filterMap fun k k' i hk hk' => h.find_inj hk hk'

/-- Clauses with the same literals come from rules that are alike. -/
theorem alike_of_literals (h : T.Lists ks) (hsame : ∀ y, y ∈ r.literals T ↔ y ∈ s.literals T) :
    r.Alike T.Knows s := by
  intro l hl
  obtain ⟨i, hi⟩ := hl
  rw [← mem_literals_iff h hi, ← mem_literals_iff h hi, hsame]

end Rule

namespace Encoding

variable {p : Problem} {m : Nat} {windows : Option (List (Window p.graph))} {f : Formula}

theorem lists_of_built [Memory] (h : Prepared p m windows)
    (hb : build p m windows = .ok (.built f)) :
    f.table.Lists (admittedKeys (allowed m windows) m p.agents.length p.graph.size) := by
  obtain ⟨_, rfl, _⟩ := (build_eq_built_iff h).mp hb
  exact lists_ofAdmission p _

theorem clauses_of_built [Memory] (h : Prepared p m windows)
    (hb : build p m windows = .ok (.built f)) :
    f.clauses.toList = (rules p m).filterMap (Rule.clause? f.table.literals) := by
  have hends := endsKnown_of_built h hb
  obtain ⟨_, rfl, _⟩ := (build_eq_built_iff h).mp hb
  exact clauses_ofAdmission hends

/-- A place with a variable lies on a journey, which goes on from there. -/
theorem exists_next [Memory] (h : Prepared p m windows) (hb : build p m windows = .ok (.built f))
    {t a v : Nat} (ht : t < m) (hk : f.table.Knows ⟨t, a, v⟩) :
    ∃ u, (u = v ∨ p.graph.hasEdge v u = true) ∧ f.table.Knows ⟨t + 1, a, u⟩ := by
  have hknows {k : Key} : f.table.Knows k ↔ k.agent < p.agents.length ∧ k.time ≤ m ∧
      k.node < p.graph.size ∧ allowed m windows k.agent k.time k.node = true := by
    rw [← mem_admittedKeys]
    exact (lists_of_built h hb).mem_iff.symm
  obtain ⟨ha, _, hv, hallowed⟩ := hknows.mp hk
  cases windows with
  | none => exact ⟨v, Or.inl rfl, hknows.mpr ⟨ha, ht, hv, rfl⟩⟩
  | some ws =>
    have hagent := List.getElem?_eq_getElem ha
    obtain ⟨_, hbefore, hafter⟩ := ((h ws rfl).admission_iff hagent).mp hallowed
    have hleft : m - t = m - (t + 1) + 1 := by omega
    rw [hleft] at hafter
    obtain ⟨u, hstep, hafter⟩ := hafter.exists_first
    have hnext : p.graph.Walk p.agents[a].initial (t + 1) u :=
      Graph.walk_succ.mpr ⟨v, hbefore, hstep.imp_left Eq.symm⟩
    have hu := hnext.lt_size (p.admissible.inside _ (List.getElem_mem ha)).1
    exact ⟨u, hstep, hknows.mpr
      ⟨ha, ht, hu, ((h ws rfl).admission_iff hagent).mpr ⟨ht, hnext, hafter⟩⟩⟩

theorem passable_of_built [Memory] (h : Prepared p m windows)
    (hb : build p m windows = .ok (.built f)) : Passable p m f.table.Knows := by
  have hends := endsKnown_of_built h hb
  have hknown {k : Key} (hk : (f.table.literals k.time k.agent k.node).isSome) :
      f.table.Knows k := by
    rwa [KeyTable.literals, Option.isSome_map, Option.isSome_iff_exists] at hk
  exact ⟨fun i agent hi => hknown (hends i agent hi).1,
    fun i agent hi => hknown (hends i agent hi).2, fun t a v ht hk => exists_next h hb ht hk⟩

/-- The clauses of a formula that say how the agents move: the first family. -/
def transitions (p : Problem) (m : Nat) (f : Formula) : List Clause :=
  moves p (fun v => p.graph.exits.getD v [])
    (fun t a => ((placeTable p m f.table.literals).getD a #[]).getD t []) m f.table.literals

theorem transitions_eq : transitions p m f =
    (moveRules p m).filterMap (Rule.clause? f.table.literals) := by
  have hexits : (fun v => p.graph.exits.getD v []) = exitsFrom p.graph :=
    funext fun v => p.graph.getD_exits v
  rw [transitions, hexits, moves_eq (listsPlaces_table p m _)]

theorem transitions_prefix [Memory] (h : Prepared p m windows)
    (hb : build p m windows = .ok (.built f)) : transitions p m f <+: f.clauses.toList := by
  rw [transitions_eq, clauses_of_built h hb]
  simp only [rules, List.filterMap_append, List.append_assoc]
  exact List.prefix_append _ _

/-- A move has a place to go to. -/
theorem exists_positive_of_mem_transitions [Memory] (h : Prepared p m windows)
    (hb : build p m windows = .ok (.built f)) : ∀ c ∈ transitions p m f,
      ∃ l ∈ c, l.negated = false := by
  rw [transitions_eq]
  intro c hc
  obtain ⟨r, hr, hc⟩ := List.mem_filterMap.mp hc
  obtain ⟨hkept, rfl⟩ := Rule.literals_of_clause? hc
  simp only [moveRules, List.mem_flatMap, List.mem_map, List.mem_range] at hr
  obtain ⟨a, _, t, ht, v, _, rfl⟩ := hr
  obtain ⟨u, hu, i, hi⟩ := exists_next h hb ht (hkept ⟨t, a, v⟩ (by simp))
  have hexit : u ∈ v :: exitsFrom p.graph v := mem_stay_or_exit.mpr hu
  exact ⟨⟨i, false⟩, Rule.mem_literals.mpr ⟨here (t + 1) a u,
    List.mem_cons_of_mem _ (List.mem_map_of_mem hexit), hi, rfl⟩, rfl⟩

/-- What each clause of a formula is like, read off its rule. -/
theorem exists_rule_of_mem_clauses [Memory] (h : Prepared p m windows)
    (hb : build p m windows = .ok (.built f)) : ∀ c ∈ f.clauses.toList,
      ∃ r ∈ rules p m, r.Kept f.table.Knows ∧ c = r.literals f.table := by
  rw [clauses_of_built h hb]
  intro c hc
  obtain ⟨r, hr, hc⟩ := List.mem_filterMap.mp hc
  exact ⟨r, hr, Rule.literals_of_clause? hc⟩

theorem ne_nil_of_mem_clauses [Memory] (h : Prepared p m windows)
    (hb : build p m windows = .ok (.built f)) : ∀ c ∈ f.clauses.toList, c ≠ [] := by
  intro c hc
  obtain ⟨r, hr, hkept, rfl⟩ := exists_rule_of_mem_clauses h hb c hc
  obtain ⟨l, hl, i, hi⟩ := (passable_of_built h hb).exists_known r hr hkept
  have hmem : ⟨i, l.negated⟩ ∈ r.literals f.table := Rule.mem_literals.mpr ⟨l, hl, hi, rfl⟩
  exact List.ne_nil_of_mem hmem

theorem nodup_of_mem_clauses [Memory] (h : Prepared p m windows)
    (hb : build p m windows = .ok (.built f)) :
    ∀ c ∈ f.clauses.toList, (c.map Literal.var).Nodup := by
  intro c hc
  obtain ⟨r, hr, _, rfl⟩ := exists_rule_of_mem_clauses h hb c hc
  exact Rule.nodup_vars_literals (lists_of_built h hb) (nodup_keys_of_mem_rules r hr)

theorem exists_key_of_mem_clauses [Memory] (h : Prepared p m windows)
    (hb : build p m windows = .ok (.built f)) : ∀ c ∈ f.clauses.toList, ∀ l ∈ c,
      ∃ k, f.table.find? k = some l.var := by
  intro c hc y hy
  obtain ⟨r, _, _, rfl⟩ := exists_rule_of_mem_clauses h hb c hc
  obtain ⟨l, _, hi, _⟩ := Rule.mem_literals.mp hy
  exact ⟨l.key, hi⟩

theorem pairwise_clauses [Memory] (h : Prepared p m windows)
    (hb : build p m windows = .ok (.built f))
    (hm : 1 ≤ m) : f.clauses.toList.Pairwise fun c d => ¬∀ l, l ∈ c ↔ l ∈ d := by
  rw [clauses_of_built h hb, List.pairwise_filterMap]
  apply ((passable_of_built h hb).pairwise_rules hm).imp
  intro r s hapart c hc d hd hsame
  obtain ⟨hr, rfl⟩ := Rule.literals_of_clause? hc
  obtain ⟨hs, rfl⟩ := Rule.literals_of_clause? hd
  exact hapart hr hs (Rule.alike_of_literals (lists_of_built h hb) hsame)

/-- Decoding asks an assignment of the variables for nothing that it lacks. -/
theorem decode_ne_misuse [Memory] (h : Prepared p m windows)
    (hb : build p m windows = .ok (.built f))
    {values : Assignment} (hsize : f.varCount ≤ values.size) (e : Misuse) :
    Schedule.decode f p.agents.length p.graph.size values ≠ .error (.misuse e) := by
  obtain ⟨hfits, rfl, _⟩ := (build_eq_built_iff h).mp hb
  have hsizes := sizes_ofAdmission p (m := m) (allowed m windows)
  simp only [KeyTable.sizes, Prod.mk.injEq] at hsizes
  obtain ⟨hmakespan, hagents, hnodes⟩ := hsizes
  apply Schedule.decode_ne_misuse (answers_stands (lists_ofAdmission p (allowed m windows)) hsize)
    (Nat.le_of_eq hagents.symm) (Nat.le_of_eq hnodes.symm)
  rw [Formula.makespan, hmakespan]
  exact hasRoom_of_fits hfits

/-- A formula without idle parts: no clause is empty, says a thing twice or says what another one
says already, and no variable is missing where it is asked for. -/
structure WellFormed [Memory] (p : Problem) (m : Nat) (f : Formula) : Prop where
  allocated : ∀ c ∈ f.clauses.toList, ∀ l ∈ c,
    l.var < f.varCount ∧ ∃ k, f.table.find? k = some l.var
  answered : ∀ values : Assignment, f.varCount ≤ values.size →
    (∃ b, f.satisfied? values = some b) ∧
      ∀ e, Schedule.decode f p.agents.length p.graph.size values ≠ .error (.misuse e)
  nonempty : ∀ c ∈ f.clauses.toList, c ≠ []
  nodup : ∀ c ∈ f.clauses.toList, (c.map Literal.var).Nodup
  first : transitions p m f <+: f.clauses.toList
  positive : ∀ c ∈ transitions p m f, ∃ l ∈ c, l.negated = false
  leads : ∀ t a v i, t < m → f.table.find? ⟨t, a, v⟩ = some i →
    ∃ u j, (u = v ∨ p.graph.hasEdge v u = true) ∧ f.table.find? ⟨t + 1, a, u⟩ = some j
  distinct : 1 ≤ m → f.clauses.toList.Pairwise fun c d => ¬∀ l, l ∈ c ↔ l ∈ d

/-- Every formula that is built is well formed, with windows or without. -/
theorem wellFormed_of_built [Memory] (h : Prepared p m windows)
    (hb : build p m windows = .ok (.built f)) : WellFormed p m f := by
  have hvars := var_lt_of_built h hb
  constructor
  · intro c hc l hl
    exact ⟨hvars c hc l hl, exists_key_of_mem_clauses h hb c hc l hl⟩
  · intro values hsize
    have hwithin : ∀ c ∈ f.clauses.toList, ∀ l ∈ c, l.var < values.size :=
      fun c hc l hl => Nat.lt_of_lt_of_le (hvars c hc l hl) hsize
    exact ⟨exists_satisfied? hwithin, decode_ne_misuse h hb hsize⟩
  · exact ne_nil_of_mem_clauses h hb
  · exact nodup_of_mem_clauses h hb
  · exact transitions_prefix h hb
  · exact exists_positive_of_mem_transitions h hb
  · intro t a v i ht hi
    obtain ⟨u, hu, j, hj⟩ := exists_next h hb ht ⟨i, hi⟩
    exact ⟨u, j, hu, hj⟩
  · exact pairwise_clauses h hb

section

attribute [local instance] Memory.ample

theorem wellFormed_convoy : Prepared convoy 2 (some convoyWindows) ∧
    build convoy 2 (some convoyWindows) = .ok (.built convoyFormula) ∧
    WellFormed convoy 2 convoyFormula := by
  have hprepared := windowsPast_convoy.prepared
  exact ⟨hprepared, build_convoy, wellFormed_of_built hprepared build_convoy⟩

end

end Encoding

end AgentPaths
