import Mathlib.Data.List.Sort
import AgentPaths.Proofs.Encoding.Correctness
import AgentPaths.Proofs.Formula.History

/-!
What decoding makes of any assignment, model or not, by a formula with any history. A schedule comes
out exactly if the assignment has every agent on one node at each time; otherwise the first agent
that it has astray is reported, with the first time and all the nodes that it is on then.
-/
namespace AgentPaths

/-- The key has a variable, and the assignment makes it true. -/
def Formula.Puts (f : Formula) (values : Assignment) (k : Key) : Prop :=
  ∃ l, f.find? k = .ok (some l) ∧ l.holds? values = some true

theorem Formula.ofSizes_eq_ok_iff [Memory] {m agents nodes : Nat} {f : Formula} :
    ofSizes m agents nodes = .ok f ↔
      KeyTable.Fits m agents nodes ∧ f = empty m agents nodes := by
  rw [ofSizes, KeyTable.Fits]
  cases KeyTable.lack? m agents nodes with
  | none => simp [eq_comm]
  | some misuse => simp

namespace Schedule

/-- Agent `a` is the first one that is not on exactly one node at each time, `t` is the first time
at which it is not, and `occupied` are the nodes that it is on then. -/
structure FirstAstray (puts : Key → Prop) (agents nodes m a t : Nat) (occupied : List Nat) :
    Prop where
  agent : a < agents
  time : t ≤ m
  increasing : occupied.Pairwise (· < ·)
  complete : ∀ v, v ∈ occupied ↔ v < nodes ∧ puts ⟨t, a, v⟩
  astray : ¬∃! v, v < nodes ∧ puts ⟨t, a, v⟩
  earlier : ∀ a' t', a' < a ∧ t' ≤ m ∨ a' = a ∧ t' < t → ∃! v, v < nodes ∧ puts ⟨t', a', v⟩

variable {f : Formula} {values : Assignment} {stands : Key → Bool} {puts : Key → Prop}
  {agents nodes m a t : Nat} {occupied : List Nat}

theorem occupies_eq_true_iff {k : Key} : occupies f values k = .ok true ↔ f.Puts values k := by
  rw [occupies, Formula.Puts]
  cases f.find? k with
  | error m => simp
  | ok l? =>
    cases l? with
    | none => simp
    | some l => cases hl : l.holds? values <;> simp [hl]

theorem Answers.stands_iff (h : Answers f values stands) {k : Key} (hk : f.table.Covers k) :
    stands k = true ↔ f.Puts values k := by
  rw [← occupies_eq_true_iff, h k hk, Except.ok.injEq]

theorem alone_iff (h : ∀ v < nodes, stands ⟨t, a, v⟩ = true ↔ puts ⟨t, a, v⟩) :
    Alone stands nodes a t ↔ ∃! v, v < nodes ∧ puts ⟨t, a, v⟩ := by
  constructor
  · rintro ⟨v, hv⟩
    have hmem (u : Nat) : u < nodes ∧ puts ⟨t, a, u⟩ ↔ u = v := by
      rw [← List.mem_singleton, ← hv, List.mem_filter, List.mem_range]
      exact and_congr_right fun hu => (h u hu).symm
    exact ⟨v, (hmem v).mpr rfl, fun u hu => (hmem u).mp hu⟩
  · rintro ⟨v, ⟨hv, hputs⟩, hone⟩
    exact ⟨v, filter_range_eq_singleton hv ((h v hv).mpr hputs)
      fun u hu hstands => hone u ⟨hu, (h u hu).mp hstands⟩⟩

/-- An increasing list of nodes is known from its elements. -/
theorem eq_filter_of_complete (hincreasing : occupied.Pairwise (· < ·))
    (hcomplete : ∀ v, v ∈ occupied ↔ v < nodes ∧ stands ⟨t, a, v⟩ = true) :
    occupied = (List.range nodes).filter fun v => stands ⟨t, a, v⟩ := by
  apply hincreasing.eq_of_mem_iff (List.pairwise_lt_range.filter _)
  intro v
  rw [hcomplete, List.mem_filter, List.mem_range]

/-- A schedule comes out if every agent is on one node at each time. -/
theorem exists_decode_iff [Memory] (h : Answers f values stands) (hagents : agents ≤ f.table.agents)
    (hnodes : nodes ≤ f.table.nodes) (hroom : HasRoom f.makespan agents) :
    (∃ s, decode f agents nodes values = .ok s) ↔
      ∀ a < agents, ∀ t ≤ f.makespan, Alone stands nodes a t := by
  simp only [decode_eq_ok_iff h hagents hnodes hroom]
  constructor
  · rintro ⟨s, hs⟩ a ha t ht
    obtain ⟨v, _, hv⟩ := hs.alone a ha t ht
    exact ⟨v, hv⟩
  · exact exists_records

/-- Otherwise the first stray agent is the fault. -/
theorem decode_eq_error_iff_firstAstray [Memory] (h : Answers f values stands)
    (hagents : agents ≤ f.table.agents) (hnodes : nodes ≤ f.table.nodes)
    (hroom : HasRoom f.makespan agents)
    (hputs : ∀ a < agents, ∀ t ≤ f.makespan, ∀ v < nodes,
      stands ⟨t, a, v⟩ = true ↔ puts ⟨t, a, v⟩) {e : DecodeError} :
    decode f agents nodes values = .error e ↔ ∃ a t occupied,
      e = .inconsistent a t occupied ∧ FirstAstray puts agents nodes f.makespan a t occupied := by
  have halone {a t : Nat} (ha : a < agents) (ht : t ≤ f.makespan) :
      Alone stands nodes a t ↔ ∃! v, v < nodes ∧ puts ⟨t, a, v⟩ := alone_iff (hputs a ha t ht)
  have hon {a t : Nat} (ha : a < agents) (ht : t ≤ f.makespan) (v : Nat) :
      v < nodes ∧ stands ⟨t, a, v⟩ = true ↔ v < nodes ∧ puts ⟨t, a, v⟩ :=
    and_congr_right (hputs a ha t ht v)
  rw [decode_eq_error_iff h hagents hnodes hroom]
  constructor
  · rintro ⟨a, ha, t, ht, he, hastray, hbefore, hfirst⟩
    refine ⟨a, t, _, he, ha, ht, List.pairwise_lt_range.filter _, ?_, ?_, ?_⟩
    · intro v
      rw [List.mem_filter, List.mem_range, hon ha ht]
    · rwa [← halone ha ht]
    · rintro a' t' (⟨ha', ht'⟩ | ⟨rfl, ht'⟩)
      · exact (halone (by omega) ht').mp (hfirst a' ha' t' ht')
      · exact (halone ha (by omega)).mp (hbefore t' ht')
  · rintro ⟨a, t, occupied, rfl, hfirst⟩
    have hat {v : Nat} := (hfirst.complete v).trans (hon hfirst.agent hfirst.time v).symm
    refine ⟨a, hfirst.agent, t, hfirst.time, ?_, ?_, ?_, ?_⟩
    · rw [eq_filter_of_complete hfirst.increasing fun v => hat]
    · rw [halone hfirst.agent hfirst.time]
      exact hfirst.astray
    · intro t' ht'
      have hle := hfirst.time
      exact (halone hfirst.agent (by omega)).mpr (hfirst.earlier a t' (.inr ⟨rfl, ht'⟩))
    · intro a' ha' t' ht'
      have hlt := hfirst.agent
      exact (halone (by omega) ht').mpr (hfirst.earlier a' t' (.inl ⟨ha', ht'⟩))

/-- What decoding yields where an assignment answers for every key. -/
theorem decode_exact_of_answers [Memory] (h : Answers f values stands)
    (hagents : agents ≤ f.table.agents)
    (hnodes : nodes ≤ f.table.nodes) (hroom : HasRoom f.makespan agents) :
    ((∃ s, decode f agents nodes values = .ok s) ↔
      ∀ a < agents, ∀ t ≤ f.makespan, ∃! v, v < nodes ∧ f.Puts values ⟨t, a, v⟩) ∧
    (∀ s, decode f agents nodes values = .ok s → s.paths.length = agents ∧
      (∀ path ∈ s.paths, path.length = f.makespan + 1) ∧ ∀ a < agents, ∀ t ≤ f.makespan, ∀ v,
        s.position? a t = some v ↔ v < nodes ∧ f.Puts values ⟨t, a, v⟩) ∧
    ∀ e, decode f agents nodes values = .error e ↔ ∃ a t occupied,
      e = .inconsistent a t occupied ∧
        FirstAstray (f.Puts values) agents nodes f.makespan a t occupied := by
  have hputs : ∀ a < agents, ∀ t ≤ f.makespan, ∀ v < nodes,
      stands ⟨t, a, v⟩ = true ↔ f.Puts values ⟨t, a, v⟩ := fun a ha t ht v hv =>
    h.stands_iff ⟨Nat.lt_succ_of_le ht, Nat.lt_of_lt_of_le ha hagents, Nat.lt_of_lt_of_le hv hnodes⟩
  refine ⟨?_, ?_, fun e => decode_eq_error_iff_firstAstray h hagents hnodes hroom hputs⟩
  · rw [exists_decode_iff h hagents hnodes hroom]
    exact forall₂_congr fun a ha => forall₂_congr fun t ht => alone_iff (hputs a ha t ht)
  · intro s hs
    have hrecords := (decode_eq_ok_iff h hagents hnodes hroom).mp hs
    refine ⟨hrecords.count, hrecords.length, fun a ha t ht v => ?_⟩
    rw [hrecords.position_iff ha ht]
    exact and_congr_right (hputs a ha t ht v)

/-- There is nothing but the reason why the schedule cannot be begun. -/
theorem decode_of_lack [Memory] {misuse : Misuse} (hlack : lack? f.makespan agents = some misuse) :
    decode f agents nodes values = .error (.misuse misuse) := by
  rw [decode, hlack]

/-- Decoding is exact for every formula, whatever calls it has had, and for every assignment of its
variables: either it records where the agents are, or it reports the first that is astray. Only
where the lists of a schedule cannot be begun neither comes of it; a formula that has two keys for
each agent, or one agent and a node, is never such a case. -/
theorem decode_exact [Memory] {agents' nodes' : Nat} {f₀ : Formula}
    (hmade : Formula.ofSizes m agents' nodes' = .ok f₀) (calls : List Formula.Call)
    (hagents : agents ≤ agents') (hnodes : nodes ≤ nodes')
    (hsize : (f₀.afterCalls calls).varCount ≤ values.size) :
    let f := f₀.afterCalls calls
    (0 < nodes' → agents ≤ 1 ∨ 2 ≤ (m + 1) * nodes' → HasRoom m agents) ∧
    (HasRoom m agents →
      ((∃ s, decode f agents nodes values = .ok s) ↔
        ∀ a < agents, ∀ t ≤ m, ∃! v, v < nodes ∧ f.Puts values ⟨t, a, v⟩) ∧
      (∀ s, decode f agents nodes values = .ok s → s.paths.length = agents ∧
        (∀ path ∈ s.paths, path.length = m + 1) ∧ ∀ a < agents, ∀ t ≤ m, ∀ v,
          s.position? a t = some v ↔ v < nodes ∧ f.Puts values ⟨t, a, v⟩) ∧
      ∀ e, decode f agents nodes values = .error e ↔ ∃ a t occupied,
        e = .inconsistent a t occupied ∧
          FirstAstray (f.Puts values) agents nodes m a t occupied) ∧
    ∀ misuse, lack? m agents = some misuse →
      decode f agents nodes values = .error (.misuse misuse) := by
  obtain ⟨hfits, rfl⟩ := Formula.ofSizes_eq_ok_iff.mp hmade
  have hempty : (Formula.empty m agents' nodes').table.Lists [] := KeyTable.lists_empty _ _ _
  have hlists := Formula.lists_afterCalls hempty calls
  have hsizes : ((Formula.empty m agents' nodes').afterCalls calls).table.sizes =
      (m, agents', nodes') := Formula.sizes_afterCalls _ calls
  simp only [KeyTable.sizes, Prod.mk.injEq] at hsizes
  obtain ⟨hmakespan, hagents', hnodes'⟩ := hsizes
  have hm : ((Formula.empty m agents' nodes').afterCalls calls).makespan = m := hmakespan
  refine ⟨hasRoom_of_entries hfits hagents, ?_, ?_⟩
  · intro hroom
    have hexact := decode_exact_of_answers (Encoding.answers_stands hlists hsize)
      (hagents'.symm ▸ hagents) (hnodes'.symm ▸ hnodes) (by rwa [hm])
    rwa [hm] at hexact
  · intro misuse hlack
    exact decode_of_lack (by rwa [hm])

/-- Without nodes the first agent is astray from the start. -/
theorem firstAstray_without_nodes (ha : 0 < agents) : FirstAstray puts agents 0 m 0 0 [] := by
  refine ⟨ha, Nat.zero_le _, .nil, ?_, ?_, ?_⟩
  · intro v
    simp
  · intro honly
    obtain ⟨v, hv, _⟩ := honly
    exact absurd hv.1 (Nat.not_lt_zero v)
  · intro a' t' hearlier
    omega

section

attribute [local instance] Memory.ample

/-- One agent of two is astray at the end, since no variable says where it could be then. -/
theorem decode_exact_callsOnSix :
    let f := (Formula.empty 1 2 3).afterCalls Formula.callsOnSix
    HasRoom 1 2 ∧ decode f 2 3 #[true, true, true] = .error (.inconsistent 1 1 []) ∧
    FirstAstray (f.Puts #[true, true, true]) 2 3 1 1 1 [] := by
  intro f
  have hmade : Formula.ofSizes 1 2 3 = .ok (Formula.empty 1 2 3) := rfl
  have hsize : f.varCount ≤ (#[true, true, true] : Assignment).size := by decide
  have herror : decode f 2 3 #[true, true, true] = .error (.inconsistent 1 1 []) := by decide
  obtain ⟨hrooms, hexact, -⟩ :=
    decode_exact hmade Formula.callsOnSix (Nat.le_refl 2) (Nat.le_refl 3) hsize
  have hroom : HasRoom 1 2 := hrooms (by decide) (by decide)
  obtain ⟨_, _, hfault⟩ := hexact hroom
  obtain ⟨a, t, occupied, he, hfirst⟩ := (hfault _).mp herror
  cases he
  exact ⟨hroom, herror, hfirst⟩

/-- A formula without nodes can be made for more steps than a path can be begun for, and for more
agents than there can be a list of paths for. Decoding does not get to the agent that is astray. -/
theorem not_exact_without_nodes :
    (Formula.ofSizes (addressBound / 4) 1 0 = .ok (.empty (addressBound / 4) 1 0) ∧
      FirstAstray ((Formula.empty (addressBound / 4) 1 0).Puts #[]) 1 0 (addressBound / 4) 0 0 [] ∧
      decode (.empty (addressBound / 4) 1 0) 1 0 #[] = .error (.misuse .tooLarge)) ∧
    Formula.ofSizes 0 (addressBound / 8) 0 = .ok (.empty 0 (addressBound / 8) 0) ∧
    FirstAstray ((Formula.empty 0 (addressBound / 8) 0).Puts #[]) (addressBound / 8) 0 0 0 0 [] ∧
    decode (.empty 0 (addressBound / 8) 0) (addressBound / 8) 0 #[] =
      .error (.misuse .tooLarge) := by
  constructor
  · have hlack : lack? (addressBound / 4) 1 = some .tooLarge := by decide
    exact ⟨rfl, firstAstray_without_nodes Nat.one_pos, decode_of_lack hlack⟩
  · have hlack : lack? 0 (addressBound / 8) = some .tooLarge := by decide
    exact ⟨rfl, firstAstray_without_nodes (by decide), decode_of_lack hlack⟩

end

end Schedule

end AgentPaths
