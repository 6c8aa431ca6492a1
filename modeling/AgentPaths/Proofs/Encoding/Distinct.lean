import AgentPaths.Proofs.Encoding.Conduct
import Mathlib.Data.List.ProdSigma
import Mathlib.Data.List.Sigma

/-!
Telling rules apart. What a rule denies stays in its clause, so that two clauses with the same
literals come from rules that deny the same places; and from what it denies every rule of the
encoding is known, except those that put an agent somewhere, which are known from what they say.
-/
namespace AgentPaths

open KeyLiteral (here away)

namespace Rule

/-- The places that a rule denies: its negated keys. -/
def denials (r : Rule) : List Key := (r.filter (·.negated)).map (·.key)

variable {r s : Rule} {t a v : Nat} {k : Key}

theorem mem_denials : k ∈ r.denials ↔ ⟨k, true⟩ ∈ r := by
  simp only [denials, List.mem_map, List.mem_filter]
  constructor
  · rintro ⟨⟨_, _⟩, ⟨hl, rfl⟩, rfl⟩
    exact hl
  · intro hk
    exact ⟨_, ⟨hk, rfl⟩, rfl⟩

@[simp] theorem denials_nil : denials [] = [] := rfl

@[simp] theorem denials_away_cons : denials (away t a v :: r) = ⟨t, a, v⟩ :: r.denials := rfl

@[simp] theorem denials_map_here (t a : Nat) (vs : List Nat) :
    denials (vs.map (here t a)) = [] := by
  simp [denials, here]

/-- The rules agree on the keys that have a variable. -/
def Alike (known : Key → Prop) (r s : Rule) : Prop :=
  ∀ l : KeyLiteral, known l.key → (l ∈ r ↔ l ∈ s)

/-- All that a rule denies has a variable, as it must for the rule to have a clause. -/
def Kept (known : Key → Prop) (r : Rule) : Prop := ∀ k ∈ r.denials, known k

variable {known : Key → Prop}

theorem kept_cons {l : KeyLiteral} :
    Kept known (l :: r) ↔ (l.negated = true → known l.key) ∧ Kept known r := by
  cases hneg : l.negated <;> simp [Kept, denials, hneg]

/-- Rules with clauses that are told apart by them. -/
def Apart (known : Key → Prop) (r s : Rule) : Prop := r.Kept known → s.Kept known → ¬r.Alike known s

theorem Alike.mem_denials_iff (h : r.Alike known s) (hr : r.Kept known) (hs : s.Kept known)
    (k : Key) : k ∈ r.denials ↔ k ∈ s.denials := by
  constructor
  · intro hk
    exact mem_denials.mpr ((h ⟨k, true⟩ (hr k hk)).mp (mem_denials.mp hk))
  · intro hk
    exact mem_denials.mpr ((h ⟨k, true⟩ (hs k hk)).mpr (mem_denials.mp hk))

theorem Apart.symm (h : Apart known r s) : Apart known s r :=
  fun hs hr halike => h hr hs fun l hl => (halike l hl).symm

theorem apart_of_denials (h : ¬∀ k, k ∈ r.denials ↔ k ∈ s.denials) : r.Apart known s :=
  fun hr hs halike => h (halike.mem_denials_iff hr hs)

/-- Rules that are known from what they deny are apart wherever they are made of different
things. -/
theorem pairwise_apart_map {ι : Type} {f : ι → Rule} {is : List ι} (his : is.Nodup)
    (hf : ∀ i ∈ is, ∀ j ∈ is, (∀ k, k ∈ (f i).denials ↔ k ∈ (f j).denials) → i = j) :
    (is.map f).Pairwise (Apart known) := by
  rw [List.pairwise_map]
  apply his.pairwise_of_forall_ne
  intro i hi j hj hne
  exact apart_of_denials fun hsame => hne (hf i hi j hj hsame)

/-- All places that a rule denies have the same time, or whatever else `f` reads off them. -/
def Agrees {β : Type} (f : Key → β) (r : Rule) : Prop :=
  ∀ k ∈ r.denials, ∀ k' ∈ r.denials, f k = f k'

theorem Agrees.of_id {β : Type} (h : r.Agrees id) (f : Key → β) : r.Agrees f :=
  fun k hk k' hk' => congrArg f (h k hk k' hk')

theorem Agrees.apart {β : Type} {f : Key → β} (hr : r.Agrees f) (hs : ¬s.Agrees f) :
    Apart known r s :=
  apart_of_denials fun hsame => hs fun k hk k' hk' =>
    hr k ((hsame k).mpr hk) k' ((hsame k').mpr hk')

end Rule

namespace Encoding

variable {p : Problem} {m : Nat} {known : Key → Prop}

/-- An agent can stay where it is or take an exit. -/
theorem mem_stay_or_exit {g : Graph} {u v : Nat} :
    u ∈ v :: exitsFrom g v ↔ u = v ∨ g.hasEdge v u = true := by
  rw [List.mem_cons, mem_exitsFrom]
  by_cases hu : u = v <;> simp [hu]

/-- The edges between different nodes, each in both directions. -/
def arcs (g : Graph) : List (Nat × Nat) :=
  (List.range g.size).flatMap fun v => (exitsFrom g v).map fun u => (v, u)

theorem nodup_arcs (g : Graph) : (arcs g).Nodup := by
  rw [arcs, List.nodup_flatMap]
  constructor
  · intro v _
    exact ((List.nodup_range.filter _).filter _).map fun u w he => (Prod.mk.inj he).2
  · apply List.nodup_range.imp
    intro v w hne e hv hw
    obtain ⟨u, _, rfl⟩ := List.mem_map.mp hv
    obtain ⟨x, _, he⟩ := List.mem_map.mp hw
    exact hne (Prod.mk.inj he).1.symm

theorem moveRules_eq_map : moveRules p m =
    (List.range p.agents.length ×ˢ List.range m ×ˢ List.range p.graph.size).map fun (a, t, v) =>
      away t a v :: (v :: exitsFrom p.graph v).map (here (t + 1) a) := by
  simp only [moveRules, SProd.sprod, List.product, List.map_flatMap, List.map_map,
    Function.comp_def]

theorem collisionRules_eq_map : collisionRules p m =
    ((List.range (m + 1) ×ˢ List.range p.graph.size) ×ˢ pairs (List.range p.agents.length)).map
      fun ((t, v), a, b) => [away t a v, away t b v] := by
  simp only [collisionRules, SProd.sprod, List.product, List.flatMap_assoc, List.flatMap_map,
    List.map_flatMap, List.map_map, Function.comp_def]

theorem occupancyRules_eq_map : occupancyRules p m =
    ((List.range p.agents.length ×ˢ List.range (m + 1)) ×ˢ pairs (List.range p.graph.size)).map
      fun ((a, t), u, v) => [away t a u, away t a v] := by
  simp only [occupancyRules, SProd.sprod, List.product, List.flatMap_assoc, List.flatMap_map,
    List.map_flatMap, List.map_map, Function.comp_def]

theorem swapRules_eq_map : swapRules p m =
    (pairs (List.range p.agents.length) ×ˢ List.range m ×ˢ arcs p.graph).map
      fun ((a, b), t, v, u) =>
        [away t a v, away (t + 1) a u, away t b u, away (t + 1) b v] := by
  simp only [swapRules, arcs, SProd.sprod, List.product, List.map_flatMap, List.map_map,
    Function.comp_def]

theorem placementRules_eq_map (t : Nat) (target : Agent → Nat) : placementRules p t target =
    (p.agents.zipIdx ×ˢ List.range p.graph.size).map
      fun ((agent, a), v) => [⟨⟨t, a, v⟩, v != target agent⟩] := by
  simp only [placementRules, SProd.sprod, List.product, List.map_flatMap, List.map_map,
    Function.comp_def]

theorem pairwise_moveRules : (moveRules p m).Pairwise (Rule.Apart known) := by
  rw [moveRules_eq_map]
  apply Rule.pairwise_apart_map
  · exact List.nodup_range.product (List.nodup_range.product List.nodup_range)
  · rintro ⟨a, t, v⟩ _ ⟨a', t', v'⟩ _ hsame
    have hkey := hsame ⟨t, a, v⟩
    simp only [Rule.denials_away_cons, Rule.denials_map_here, List.mem_singleton, true_iff,
      Key.mk.injEq] at hkey
    simp [hkey]

/-- The rules against two of a row being taken together, for rows without a common place. -/
theorem pairwise_rows {ι : Type} {rows : List ι} (hrows : rows.Nodup) (n : Nat)
    (place : ι → Nat → Key) (hplace : ∀ i a j b, place i a = place j b → i = j ∧ a = b) :
    ((rows ×ˢ pairs (List.range n)).map fun (i, a, b) =>
      ([⟨place i a, true⟩, ⟨place i b, true⟩] : Rule)).Pairwise (Rule.Apart known) := by
  apply Rule.pairwise_apart_map (hrows.product (nodup_pairs List.nodup_range))
  rintro ⟨i, a, b⟩ h ⟨j, c, d⟩ h' hsame
  have hab := (mem_pairs_range.mp (List.mem_product.mp h).2).1
  have hcd := (mem_pairs_range.mp (List.mem_product.mp h').2).1
  have hfirst := hsame (place i a)
  have hsecond := hsame (place i b)
  simp only [Rule.mem_denials, List.mem_cons, KeyLiteral.mk.injEq, and_true, List.not_mem_nil,
    or_false, true_or, or_true, true_iff] at hfirst hsecond
  obtain ⟨rfl, ha⟩ : i = j ∧ (a = c ∨ a = d) := by
    rcases hfirst with he | he <;> simp [hplace _ _ _ _ he]
  have hb : b = c ∨ b = d := by
    rcases hsecond with he | he <;> simp [hplace _ _ _ _ he]
  obtain ⟨rfl, rfl⟩ : a = c ∧ b = d := by omega
  rfl

theorem pairwise_collisionRules : (collisionRules p m).Pairwise (Rule.Apart known) := by
  rw [collisionRules_eq_map]
  exact pairwise_rows (List.nodup_range.product List.nodup_range) _
    (fun tv a => ⟨tv.1, a, tv.2⟩) (by grind)

theorem pairwise_occupancyRules : (occupancyRules p m).Pairwise (Rule.Apart known) := by
  rw [occupancyRules_eq_map]
  exact pairwise_rows (List.nodup_range.product List.nodup_range) _
    (fun ta v => ⟨ta.2, ta.1, v⟩) (by grind)

theorem pairwise_swapRules : (swapRules p m).Pairwise (Rule.Apart known) := by
  rw [swapRules_eq_map]
  apply Rule.pairwise_apart_map
  · exact (nodup_pairs List.nodup_range).product (List.nodup_range.product (nodup_arcs _))
  · rintro ⟨⟨a, b⟩, t, v, u⟩ h ⟨⟨a', b'⟩, t', v', u'⟩ h' hsame
    have hab := (mem_pairs_range.mp (List.mem_product.mp h).1).1
    have hab' := (mem_pairs_range.mp (List.mem_product.mp h').1).1
    have hfirst := hsame ⟨t, a, v⟩
    have hsecond := hsame ⟨t, b, u⟩
    have hthird := hsame ⟨t + 1, a, u⟩
    simp only [Rule.denials_away_cons, Rule.denials_nil, List.mem_cons, List.not_mem_nil, or_false,
      Key.mk.injEq, true_or, or_true, true_iff] at hfirst hsecond hthird
    simp only [Prod.mk.injEq]
    omega

/-- The places that have a variable allow for the journeys: the ends of every agent are among them,
and none of them is a dead end. -/
structure Passable (p : Problem) (m : Nat) (known : Key → Prop) : Prop where
  starts : ∀ i agent, p.agents[i]? = some agent → known ⟨0, i, agent.initial⟩
  finishes : ∀ i agent, p.agents[i]? = some agent → known ⟨m, i, agent.goal⟩
  leads : ∀ t a v, t < m → known ⟨t, a, v⟩ →
    ∃ u, (u = v ∨ p.graph.hasEdge v u = true) ∧ known ⟨t + 1, a, u⟩

/-- A rule about a single place whose clause is not lost. -/
def Single (known : Key → Prop) (t : Nat) (r : Rule) : Prop :=
  ∃ l : KeyLiteral, r = [l] ∧ l.key.time = t ∧ (r.Kept known → known l.key)

theorem single_of_mem_placementRules {t : Nat} {target : Agent → Nat}
    (htarget : ∀ i agent, p.agents[i]? = some agent → known ⟨t, i, target agent⟩) :
    ∀ r ∈ placementRules p t target, Single known t r := by
  simp only [placementRules, List.forall_mem_flatMap, List.forall_mem_map]
  intro ai hai v _
  refine ⟨_, rfl, rfl, fun hkept => ?_⟩
  by_cases hv : v = target ai.1
  · exact hv ▸ htarget ai.2 ai.1 (List.mem_zipIdx_iff_getElem?.mp hai)
  · exact hkept _ (Rule.mem_denials.mpr (by simp [hv]))

theorem apart_of_singles {l l' : KeyLiteral} (hl : Rule.Kept known [l] → known l.key)
    (hne : l.key ≠ l'.key) : Rule.Apart known [l] [l'] := by
  intro hkept _ halike
  have hmem := (halike l (hl hkept)).mp (List.mem_singleton_self l)
  exact hne (congrArg KeyLiteral.key (List.mem_singleton.mp hmem))

theorem pairwise_placementRules {t : Nat} {target : Agent → Nat}
    (htarget : ∀ i agent, p.agents[i]? = some agent → known ⟨t, i, target agent⟩) :
    (placementRules p t target).Pairwise (Rule.Apart known) := by
  have hsingle := single_of_mem_placementRules htarget
  rw [placementRules_eq_map] at hsingle ⊢
  rw [List.pairwise_map]
  have hnodup : (p.agents.zipIdx ×ˢ List.range p.graph.size).Nodup :=
    (List.nodup_zipIdx_map_snd _).of_map.product List.nodup_range
  apply hnodup.pairwise_of_forall_ne
  rintro ⟨⟨agent, i⟩, v⟩ h ⟨⟨agent', j⟩, w⟩ h' hne
  obtain ⟨l, hr, _, hl⟩ := hsingle _ (List.mem_map.mpr ⟨_, h, rfl⟩)
  cases hr
  apply apart_of_singles hl
  intro hkey
  cases hkey
  -- the same place is that of the same agent
  have hi := List.mem_zipIdx_iff_getElem?.mp (List.mem_product.mp h).1
  have hj := List.mem_zipIdx_iff_getElem?.mp (List.mem_product.mp h').1
  cases hi.symm.trans hj
  exact hne rfl

theorem agrees_of_mem_moveRules : ∀ r ∈ moveRules p m, r.Agrees id := by
  simp only [moveRules, List.forall_mem_flatMap, List.forall_mem_map]
  intro a _ t _ v _ k hk k' hk'
  rw [Rule.denials_away_cons, Rule.denials_map_here, List.mem_singleton] at hk hk'
  rw [hk, hk']

theorem agrees_of_mem_collisionRules : ∀ r ∈ collisionRules p m,
    r.Agrees Key.time ∧ ¬r.Agrees Key.agent := by
  simp only [collisionRules, List.forall_mem_flatMap, List.forall_mem_map, Prod.forall,
    mem_pairs_range]
  intro t _ v _ a b hab
  simp [Rule.Agrees, Nat.ne_of_lt hab.1]

theorem agrees_of_mem_occupancyRules : ∀ r ∈ occupancyRules p m,
    r.Agrees Key.time ∧ r.Agrees Key.agent ∧ ¬r.Agrees Key.node := by
  simp only [occupancyRules, List.forall_mem_flatMap, List.forall_mem_map, Prod.forall,
    mem_pairs_range]
  intro a _ t _ u v huv
  simp [Rule.Agrees, Nat.ne_of_lt huv.1]

theorem agrees_of_mem_swapRules : ∀ r ∈ swapRules p m, ¬r.Agrees Key.time := by
  simp only [swapRules, List.forall_mem_flatMap, List.forall_mem_map, Prod.forall, mem_pairs_range]
  intro a b _ t _ v _ u _
  simp [Rule.Agrees]

theorem Single.agrees {t : Nat} {r : Rule} (h : Single known t r) : r.Agrees id := by
  obtain ⟨l, rfl, -, -⟩ := h
  simp only [Rule.Agrees, Rule.mem_denials, List.mem_singleton]
  intro k hk k' hk'
  exact congrArg KeyLiteral.key (hk.trans hk'.symm)

/-- A move is told from a rule about a single place by where it leads. -/
theorem Passable.apart_of_single (h : Passable p m known) {r s : Rule} (hr : r ∈ moveRules p m)
    {t : Nat} (hs : Single known t s) : Rule.Apart known r s := by
  simp only [moveRules, List.mem_flatMap, List.mem_map, List.mem_range] at hr
  obtain ⟨a, ha, t, ht, v, hv, rfl⟩ := hr
  obtain ⟨l, rfl, -, -⟩ := hs
  intro hkept _ halike
  have hknown : known ⟨t, a, v⟩ := hkept _ (by simp)
  obtain ⟨u, hu, hnext⟩ := h.leads t a v ht hknown
  have hexit : u ∈ v :: exitsFrom p.graph v := mem_stay_or_exit.mpr hu
  have haway := (halike (away t a v) hknown).mp List.mem_cons_self
  have hhere := (halike (here (t + 1) a u) hnext).mp
    (List.mem_cons_of_mem _ (List.mem_map_of_mem hexit))
  rw [List.mem_singleton] at haway hhere
  cases haway.trans hhere.symm

theorem Passable.single_of_boundary (h : Passable p m known) :
    ∀ r ∈ placementRules p 0 Agent.initial ++ placementRules p m Agent.goal,
      ∃ t, Single known t r := by
  rw [List.forall_mem_append]
  exact ⟨fun r hr => ⟨0, single_of_mem_placementRules h.starts r hr⟩,
    fun r hr => ⟨m, single_of_mem_placementRules h.finishes r hr⟩⟩

/-- If there is a step, the start and the end are different times. -/
theorem Passable.pairwise_boundary (h : Passable p m known) (hm : 1 ≤ m) :
    (placementRules p 0 Agent.initial ++ placementRules p m Agent.goal).Pairwise
      (Rule.Apart known) := by
  refine List.pairwise_append.mpr ⟨pairwise_placementRules h.starts,
    pairwise_placementRules h.finishes, fun r hr s hs => ?_⟩
  obtain ⟨l, rfl, hzero, hl⟩ := single_of_mem_placementRules h.starts r hr
  obtain ⟨l', rfl, hlast, -⟩ := single_of_mem_placementRules h.finishes s hs
  apply apart_of_singles hl
  intro hkey
  rw [hkey, hlast] at hzero
  omega

/-- No two rules that have clauses have the same one, if there is at least one step. -/
theorem Passable.pairwise_rules (h : Passable p m known) (hm : 1 ≤ m) :
    (rules p m).Pairwise (Rule.Apart known) := by
  have hfew {β : Type} {f : Key → β} {r s : Rule} (hr : r.Agrees id) (hs : ¬s.Agrees f) :
      Rule.Apart known r s := (hr.of_id f).apart hs
  have hmoves : ∀ r ∈ moveRules p m, r.Agrees id := agrees_of_mem_moveRules
  have hcollisions : ∀ r ∈ collisionRules p m, r.Agrees Key.time ∧ ¬r.Agrees Key.agent :=
    agrees_of_mem_collisionRules
  have hoccupancy : ∀ r ∈ occupancyRules p m,
      r.Agrees Key.time ∧ r.Agrees Key.agent ∧ ¬r.Agrees Key.node := agrees_of_mem_occupancyRules
  have hswaps : ∀ r ∈ swapRules p m, ¬r.Agrees Key.time := agrees_of_mem_swapRules
  have hboundary := h.pairwise_boundary hm
  have hsingle := h.single_of_boundary
  rw [rules]
  generalize placementRules p 0 Agent.initial ++ placementRules p m Agent.goal = boundary
    at hboundary hsingle ⊢
  have hplaced {β : Type} {f : Key → β} {r : Rule} (hr : ¬r.Agrees f) :
      ∀ s ∈ boundary, Rule.Apart known r s := by
    intro s hs
    obtain ⟨t, hs⟩ := hsingle s hs
    exact (hfew hs.agrees hr).symm
  simp only [List.pairwise_append, List.forall_mem_append]
  refine ⟨⟨⟨⟨pairwise_moveRules, pairwise_collisionRules, ?_⟩, pairwise_occupancyRules, ?_, ?_⟩,
    pairwise_swapRules, ⟨?_, ?_⟩, ?_⟩, hboundary, ⟨⟨?_, ?_⟩, ?_⟩, ?_⟩
  · exact fun r hr s hs => hfew (hmoves r hr) (hcollisions s hs).2
  · exact fun r hr s hs => hfew (hmoves r hr) (hoccupancy s hs).2.2
  · exact fun r hr s hs => ((hoccupancy s hs).2.1.apart (hcollisions r hr).2).symm
  · exact fun r hr s hs => hfew (hmoves r hr) (hswaps s hs)
  · exact fun r hr s hs => (hcollisions r hr).1.apart (hswaps s hs)
  · exact fun r hr s hs => (hoccupancy r hr).1.apart (hswaps s hs)
  · intro r hr s hs
    obtain ⟨t, hs⟩ := hsingle s hs
    exact h.apart_of_single hr hs
  · exact fun r hr => hplaced (hcollisions r hr).2
  · exact fun r hr => hplaced (hoccupancy r hr).2.2
  · exact fun r hr => hplaced (hswaps r hr)

/-- What a rule denies is not lost. -/
theorem exists_known_of_denials {r : Rule} (hr : r.denials ≠ []) (hkept : r.Kept known) :
    ∃ l ∈ r, known l.key := by
  obtain ⟨k, hk⟩ := List.exists_mem_of_ne_nil _ hr
  exact ⟨⟨k, true⟩, Rule.mem_denials.mp hk, hkept k hk⟩

/-- A rule that has a clause speaks of a place that has a variable. -/
theorem Passable.exists_known (h : Passable p m known) :
    ∀ r ∈ rules p m, r.Kept known → ∃ l ∈ r, known l.key := by
  have hboundary := h.single_of_boundary
  rw [rules]
  generalize placementRules p 0 Agent.initial ++ placementRules p m Agent.goal = boundary
    at hboundary ⊢
  simp only [List.forall_mem_append]
  refine ⟨⟨⟨⟨?_, ?_⟩, ?_⟩, ?_⟩, ?_⟩
  · simp only [moveRules, List.forall_mem_flatMap, List.forall_mem_map]
    exact fun a _ t _ v _ => exists_known_of_denials (List.cons_ne_nil _ _)
  · simp only [collisionRules, List.forall_mem_flatMap, List.forall_mem_map]
    exact fun t _ v _ ab _ => exists_known_of_denials (List.cons_ne_nil _ _)
  · simp only [occupancyRules, List.forall_mem_flatMap, List.forall_mem_map]
    exact fun a _ t _ uv _ => exists_known_of_denials (List.cons_ne_nil _ _)
  · simp only [swapRules, List.forall_mem_flatMap, List.forall_mem_map]
    exact fun ab _ t _ v _ u _ => exists_known_of_denials (List.cons_ne_nil _ _)
  · intro r hr hkept
    obtain ⟨t, l, rfl, -, hl⟩ := hboundary r hr
    exact ⟨l, List.mem_singleton_self l, hl hkept⟩

/-- No rule names a key twice. -/
theorem nodup_keys_of_mem_rules : ∀ r ∈ rules p m, (r.map KeyLiteral.key).Nodup := by
  simp only [rules, List.forall_mem_append, moveRules, collisionRules, occupancyRules, swapRules,
    placementRules, List.forall_mem_flatMap, List.forall_mem_map, Prod.forall, mem_pairs_range]
  refine ⟨⟨⟨⟨?_, ?_⟩, ?_⟩, ?_⟩, ?_, ?_⟩
  · intro a _ t _ v _
    have hself : v ∉ exitsFrom p.graph v := fun hv => (mem_exitsFrom.mp hv).2 rfl
    have hexits : (v :: exitsFrom p.graph v).Nodup :=
      List.nodup_cons.mpr ⟨hself, (List.nodup_range.filter _).filter _⟩
    rw [List.map_cons, List.map_map, List.nodup_cons]
    constructor
    · simp [away, here]
    · exact hexits.map fun u w he => by cases he; rfl
  · intro t _ v _ a b hab
    simp [away, Nat.ne_of_lt hab.1]
  · intro a _ t _ u v huv
    simp [away, Nat.ne_of_lt huv.1]
  · intro a b hab t _ v _ u _
    simp [away, Nat.ne_of_lt hab.1]
  · intro agent a _ v _
    exact List.nodup_singleton _
  · intro agent a _ v _
    exact List.nodup_singleton _

end Encoding

end AgentPaths
