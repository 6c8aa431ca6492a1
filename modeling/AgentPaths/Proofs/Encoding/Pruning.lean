import AgentPaths.Proofs.Encoding.Models

/-!
Pruning is propagation. Read over keys, the clauses made with windows are the clauses made without
them after every key that the windows rule out has been set to false, in the same order; and every
model of the latter has these keys false already.
-/
namespace AgentPaths

namespace KeyTable

/-- The keys that a table is laid out for. -/
def keys (T : KeyTable) : List Key :=
  (List.range (T.makespan + 1)).flatMap fun t => (List.range T.agents).flatMap fun a =>
    (List.range T.nodes).map fun v => ⟨t, a, v⟩

/-- The key of a variable. -/
def key? (T : KeyTable) (i : Nat) : Option Key := T.keys.find? fun k => T.find? k == some i

variable {T : KeyTable} {ks : List Key} {k : Key} {i : Nat}

theorem mem_keys : k ∈ T.keys ↔ T.Covers k := by
  simp only [keys, List.mem_flatMap, List.mem_map, List.mem_range, Covers]
  constructor
  · intro h
    obtain ⟨t, ht, a, ha, v, hv, rfl⟩ := h
    exact ⟨ht, ha, hv⟩
  · intro h
    exact ⟨k.time, h.1, k.agent, h.2.1, k.node, h.2.2, rfl⟩

theorem Lists.key?_of_find (h : T.Lists ks) (hi : T.find? k = some i) : T.key? i = some k := by
  have hcovers := mem_keys.mpr (h.covers k (h.mem_iff.mpr ⟨i, hi⟩))
  cases hfound : T.key? i with
  | none =>
    have hnot := List.find?_eq_none.mp hfound k hcovers
    simp [hi] at hnot
  | some k' =>
    have hk' := List.find?_some hfound
    rw [beq_iff_eq] at hk'
    rw [h.find_inj hi hk']

end KeyTable

namespace Rule

/-- A clause with each variable replaced by its key. -/
def ofClause? (T : KeyTable) (c : Clause) : Option Rule :=
  c.mapM fun l => (T.key? l.var).map fun k => ⟨k, l.negated⟩

/-- What is left of a rule when some keys are false: nothing if one of them stands negated in it,
otherwise the literals of the other keys. -/
def without (gone : Key → Bool) (r : Rule) : Option Rule :=
  if r.any fun l => l.negated && gone l.key then none else some (r.filter fun l => !gone l.key)

variable {gone : Key → Bool} {r : Rule}

theorem without_cons (l : KeyLiteral) : without gone (l :: r) =
    if l.negated && gone l.key then none
    else (without gone r).map fun rest => if gone l.key then rest else l :: rest := by
  unfold without
  rw [List.any_cons, List.filter_cons]
  cases l.negated && gone l.key <;> cases r.any fun l => l.negated && gone l.key <;>
    cases gone l.key <;> rfl

theorem without_eq_self (h : ∀ l ∈ r, gone l.key = false) : r.without gone = some r := by
  induction r with
  | nil => rfl
  | cons l rest ih =>
    rw [without_cons, h l List.mem_cons_self, ih fun l' hl' => h l' (List.mem_cons_of_mem _ hl')]
    simp

variable {T : KeyTable} {ks : List Key}

theorem ofClause?_cons {l : Literal} {c : Clause} {k : Key} (hk : T.key? l.var = some k) :
    ofClause? T (l :: c) = (ofClause? T c).map (⟨k, l.negated⟩ :: ·) := by
  simp only [ofClause?, List.mapM_cons, hk, Option.map_some]
  cases List.mapM (fun l => (T.key? l.var).map fun k => KeyLiteral.mk k l.negated) c <;> rfl

/-- The clause of a rule reads back as what is left of it without the keys that have no variable. -/
theorem map_ofClause?_clause? (h : T.Lists ks) (r : Rule) :
    (r.clause? T.literals).map (ofClause? T) =
      (r.without fun k => (T.find? k).isNone).map some := by
  induction r with
  | nil => rfl
  | cons l rest ih =>
    rw [clause?, without_cons, KeyTable.literals]
    cases hi : T.find? l.key with
    | none =>
      cases l.negated with
      | true => rfl
      | false => simpa [hi] using ih
    | some i =>
      have hkey := h.key?_of_find hi
      have hlit : (if l.negated then (Literal.positive i).neg else .positive i) =
          ⟨i, l.negated⟩ := by
        cases l.negated <;> rfl
      cases hc : clause? T.literals rest with
      | none =>
        rw [hc, Option.map_none, eq_comm, Option.map_eq_none_iff] at ih
        simp [ih]
      | some c =>
        rw [hc, Option.map_some, eq_comm, Option.map_eq_some_iff] at ih
        obtain ⟨rest', hrest', hread⟩ := ih
        have hcons := ofClause?_cons (l := ⟨i, l.negated⟩) (c := c) hkey
        simp [hrest', hlit, hcons, ← hread]

theorem mapM_ofClause? (h : T.Lists ks) (rs : List Rule) :
    (rs.filterMap (clause? T.literals)).mapM (ofClause? T) =
      some (rs.filterMap (without fun k => (T.find? k).isNone)) := by
  induction rs with
  | nil => rfl
  | cons r rest ih =>
    have hr := map_ofClause?_clause? h r
    cases hc : clause? T.literals r with
    | none =>
      rw [hc, Option.map_none, eq_comm, Option.map_eq_none_iff] at hr
      rw [List.filterMap_cons_none hc, List.filterMap_cons_none hr, ih]
    | some c =>
      rw [hc, Option.map_some, eq_comm, Option.map_eq_some_iff] at hr
      obtain ⟨r', hr', hread⟩ := hr
      rw [List.filterMap_cons_some hc, List.filterMap_cons_some hr', List.mapM_cons, ih, ← hread]
      rfl

end Rule

/-- The clauses of a formula, read over keys. -/
def Formula.rules? (f : Formula) : Option (List Rule) :=
  f.clauses.toList.mapM (Rule.ofClause? f.table)

/-- Whether a key has no variable. -/
def Formula.lacks (f : Formula) (k : Key) : Bool := (f.table.find? k).isNone

namespace Encoding

open KeyLiteral (here away)

variable {p : Problem} {m : Nat} {windows : Option (List (Window p.graph))} {f : Formula}

theorem key_of_mem_placementRules {t : Nat} {target : Agent → Nat} (ht : t ≤ m) :
    ∀ r ∈ placementRules p t target, ∀ l ∈ r,
      l.key.agent < p.agents.length ∧ l.key.time ≤ m ∧ l.key.node < p.graph.size := by
  simp only [placementRules, List.forall_mem_flatMap, List.forall_mem_map, List.mem_range,
    List.forall_mem_cons]
  intro ai hai v hv
  have hi := List.mem_zipIdx_iff_getElem?.mp hai
  exact ⟨⟨(List.getElem?_eq_some_iff.mp hi).1, ht, hv⟩, by simp⟩

/-- The rules only speak of agents of the problem, of nodes of its graph and of times up to `m`. -/
theorem key_of_mem_rules : ∀ r ∈ rules p m, ∀ l ∈ r,
    l.key.agent < p.agents.length ∧ l.key.time ≤ m ∧ l.key.node < p.graph.size := by
  simp only [rules, List.forall_mem_append]
  refine ⟨⟨⟨⟨?_, ?_⟩, ?_⟩, ?_⟩, ?_, ?_⟩
  · simp only [moveRules, List.forall_mem_flatMap, List.forall_mem_map, List.mem_range,
      List.forall_mem_cons, away, here, mem_exitsFrom]
    intro a ha t ht v hv
    refine ⟨⟨ha, by omega, hv⟩, ⟨ha, by omega, hv⟩, fun u hu => ⟨ha, by omega, ?_⟩⟩
    exact (Graph.lt_of_hasEdge hu.1).2
  · simp only [collisionRules, List.forall_mem_flatMap, List.forall_mem_map, List.mem_range,
      Prod.forall, mem_pairs_range, List.forall_mem_cons, away]
    intro t ht v hv a b hab
    exact ⟨⟨by omega, by omega, hv⟩, ⟨by omega, by omega, hv⟩, by simp⟩
  · simp only [occupancyRules, List.forall_mem_flatMap, List.forall_mem_map, List.mem_range,
      Prod.forall, mem_pairs_range, List.forall_mem_cons, away]
    intro a ha t ht u v huv
    exact ⟨⟨ha, by omega, by omega⟩, ⟨ha, by omega, by omega⟩, by simp⟩
  · simp only [swapRules, List.forall_mem_flatMap, List.forall_mem_map, List.mem_range,
      Prod.forall, mem_pairs_range, List.forall_mem_cons, away, mem_exitsFrom]
    intro a b hab t ht v hv u hu
    have hun := (Graph.lt_of_hasEdge hu.1).2
    exact ⟨⟨by omega, by omega, hv⟩, ⟨by omega, by omega, hun⟩, ⟨by omega, by omega, hun⟩,
      ⟨by omega, by omega, hv⟩, by simp⟩
  · exact key_of_mem_placementRules (Nat.zero_le m)
  · exact key_of_mem_placementRules (Nat.le_refl m)

theorem rules?_of_built [Memory] (h : Prepared p m windows)
    (hb : build p m windows = .ok (.built f)) :
    f.rules? = some ((rules p m).filterMap (Rule.without f.lacks)) := by
  have hends := endsKnown_of_built h hb
  obtain ⟨_, rfl, _⟩ := (build_eq_built_iff h).mp hb
  have hclauses : (ofAdmission p m (allowed m windows)).clauses.toList =
      (rules p m).filterMap (Rule.clause? (ofAdmission p m (allowed m windows)).table.literals) :=
    clauses_eq hends
  rw [Formula.rules?, hclauses]
  exact Rule.mapM_ofClause? (lists_ofAdmission p _) _

theorem covers_of_built [Memory] (h : Prepared p m windows)
    (hb : build p m windows = .ok (.built f)) {k : Key} : f.table.Covers k ↔
      k.agent < p.agents.length ∧ k.time ≤ m ∧ k.node < p.graph.size := by
  obtain ⟨_, rfl, _⟩ := (build_eq_built_iff h).mp hb
  exact covers_ofAdmission p

theorem lacks_iff [Memory] (h : Prepared p m windows) (hb : build p m windows = .ok (.built f))
    {k : Key} (hk : f.table.Covers k) :
    f.lacks k = true ↔ allowed m windows k.agent k.time k.node = false := by
  obtain ⟨hagent, htime, hnode⟩ := (covers_of_built h hb).mp hk
  obtain ⟨_, rfl, _⟩ := (build_eq_built_iff h).mp hb
  have hlists := lists_ofAdmission p (m := m) (allowed m windows)
  rw [Formula.lacks, Option.isNone_iff_eq_none, hlists.find?_eq_none, mem_admittedKeys,
    ← Bool.not_eq_true]
  simp only [hagent, htime, hnode, true_and]

/-- A formula made without windows has a variable for every key. -/
theorem lacks_unpruned [Memory] {g : Formula} (hb : build p m none = .ok (.built g)) {k : Key}
    (hk : g.table.Covers k) : g.lacks k = false := by
  rw [← Bool.not_eq_true, lacks_iff prepared_none hb hk]
  simp [allowed]

theorem rules?_unpruned [Memory] {g : Formula} (hb : build p m none = .ok (.built g)) :
    g.rules? = some (rules p m) := by
  have hwhole : (rules p m).filterMap (Rule.without g.lacks) = (rules p m).filterMap some := by
    apply List.filterMap_congr
    intro r hr
    apply Rule.without_eq_self
    intro l hl
    apply lacks_unpruned hb
    exact (covers_of_built prepared_none hb).mpr (key_of_mem_rules r hr l hl)
  rw [rules?_of_built prepared_none hb, hwhole, List.filterMap_some]

variable {ws : List (Window p.graph)}

/-- A model of the clauses made without windows has no agent where its window does not admit it. -/
theorem value_of_lacks [Memory] {g : Formula} (h : WindowsPast p m ws)
    (hb : build p m (some ws) = .ok (.built f)) (hg : build p m none = .ok (.built g))
    {values : Assignment} (hsize : g.varCount ≤ values.size)
    (hsat : g.satisfied? values = some true) {k : Key} (hk : g.table.Covers k)
    (hlacks : f.lacks k = true) : ∃ i, g.table.find? k = some i ∧ values[i]? = some false := by
  have hprepared := h.prepared
  obtain ⟨hagent, htime, hnode⟩ := (covers_of_built prepared_none hg).mp hk
  obtain ⟨s, hdecode, hs⟩ := exists_solution_of_model prepared_none hg hsize hsat
  have hrecords := (decode_eq_ok_iff_records prepared_none hg hsize).mp hdecode
  have hsome := lacks_unpruned hg hk
  rw [Formula.lacks, Option.isNone_eq_false_iff, Option.isSome_iff_exists] at hsome
  obtain ⟨i, hi⟩ := hsome
  refine ⟨i, hi, ?_⟩
  have hlt : i < values.size := by
    obtain ⟨_, rfl, _⟩ := (build_eq_built_iff prepared_none).mp hg
    exact Nat.lt_of_lt_of_le ((lists_ofAdmission p _).lt_count hi) hsize
  rw [Array.getElem?_eq_getElem hlt, Option.some.injEq, ← Bool.not_eq_true]
  intro htrue
  -- the agent would stand on the node in a solution, and the windows admit every solution
  have hstands : stands g values k = true := by
    simp [stands_of_find hi, Assignment.value, hlt, htrue]
  have hposition := hrecords.position_of_stands hagent htime hnode hstands
  have hat := List.getElem?_eq_getElem hagent
  obtain ⟨_, hbefore, hafter⟩ := hs.walks hat hposition
  have hallowed := allowed_of_walk hprepared hat htime hbefore hafter
  have hcovers := (covers_of_built hprepared hb).mpr ⟨hagent, htime, hnode⟩
  rw [(lacks_iff hprepared hb hcovers).mp hlacks] at hallowed
  cases hallowed

/-- The window of an agent answers for the keys that have no variable. -/
theorem lacks_iff_accessible [Memory] (h : WindowsPast p m ws)
    (hb : build p m (some ws) = .ok (.built f))
    {i t v : Nat} {w : Window p.graph} (hw : ws[i]? = some w) (ht : t ≤ m) (hv : v < p.graph.size) :
    f.lacks ⟨t, i, v⟩ = true ↔ w.accessible v t m = .ok false := by
  have hprepared := h.prepared
  have hi : i < p.agents.length := h.perAgent ▸ (List.getElem?_eq_some_iff.mp hw).1
  have hpast := h.past w (List.mem_of_getElem? hw)
  have haccessible : w.accessible v t m = .ok (w.admits v t m) := by
    rw [Window.accessible, if_neg (by omega), if_neg (by omega), if_neg (by omega)]
  rw [lacks_iff hprepared hb ((covers_of_built hprepared hb).mpr ⟨hi, ht, hv⟩), haccessible]
  simp [allowed, admission, hw]

/-- The clauses made with windows are the clauses made without them after every key that the windows
rule out has been set to false, and these keys are false in every model of the latter. -/
theorem pruned_refines_plain [Memory] (h : WindowsPast p m ws)
    (hb : build p m (some ws) = .ok (.built f)) :
    (∀ i w t v, ws[i]? = some w → t ≤ m → v < p.graph.size →
      (f.lacks ⟨t, i, v⟩ = true ↔ w.accessible v t m = .ok false)) ∧
    ∃ g rs, build p m none = .ok (.built g) ∧ g.rules? = some rs ∧
      f.rules? = some (rs.filterMap (Rule.without f.lacks)) ∧
      ∀ values : Assignment, g.varCount ≤ values.size → g.satisfied? values = some true →
        ∀ k, g.table.Covers k → f.lacks k = true →
          ∃ i, g.table.find? k = some i ∧ values[i]? = some false := by
  have hprepared := h.prepared
  refine ⟨fun i w t v hw ht hv => lacks_iff_accessible h hb hw ht hv, ?_⟩
  have hfits := ((build_eq_built_iff hprepared).mp hb).1
  have hg := (build_eq_built_iff (p := p) prepared_none).mpr ⟨hfits, rfl, fun hne => absurd rfl hne⟩
  refine ⟨_, _, hg, rules?_unpruned hg, rules?_of_built hprepared hb, ?_⟩
  intro values hsize hsat k hk hlacks
  exact value_of_lacks h hb hg hsize hsat hk hlacks

section

attribute [local instance] Memory.ample

theorem pruned_refines_plain_convoy : WindowsPast convoy 2 convoyWindows ∧
    build convoy 2 (some convoyWindows) = .ok (.built convoyFormula) ∧
    convoyFormula.lacks ⟨0, 0, 1⟩ = true ∧
    ∃ g rs, build convoy 2 none = .ok (.built g) ∧ g.rules? = some rs ∧
      convoyFormula.rules? = some (rs.filterMap (Rule.without convoyFormula.lacks)) ∧
      ∀ values : Assignment, g.varCount ≤ values.size → g.satisfied? values = some true →
        ∀ k, g.table.Covers k → convoyFormula.lacks k = true →
          ∃ i, g.table.find? k = some i ∧ values[i]? = some false :=
  ⟨windowsPast_convoy, build_convoy, by decide,
    (pruned_refines_plain windowsPast_convoy build_convoy).2⟩

end

end Encoding

end AgentPaths
