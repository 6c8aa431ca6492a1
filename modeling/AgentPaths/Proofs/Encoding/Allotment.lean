import AgentPaths.Encoding
import AgentPaths.Proofs.Formula.Listing
import AgentPaths.Proofs.Window.Distance

/-!
Which keys get a variable, and which. The table of a formula lists the admitted keys by agent, time
and node; windows that have ticked past the makespan admit the keys on the walks from end to end,
and there is a formula exactly when every agent has such a walk.
-/
namespace AgentPaths

/-- The order of the variables: by agent, then by time, then by node. -/
def Key.Before (k l : Key) : Prop :=
  k.agent < l.agent ∨ k.agent = l.agent ∧ (k.time < l.time ∨ k.time = l.time ∧ k.node < l.node)

namespace Encoding

variable (allow : Admission)

/-- The admitted keys of agent `a`, by time and then by node. -/
def agentKeys (m nodes a : Nat) : List Key :=
  (List.range (m + 1)).flatMap fun t =>
    ((List.range nodes).filter (allow a t)).map fun v => ⟨t, a, v⟩

/-- The admitted keys, agent by agent. -/
def admittedKeys (m agents nodes : Nat) : List Key :=
  (List.range agents).flatMap (agentKeys allow m nodes)

variable {allow} {m agents nodes a : Nat}

theorem mem_agentKeys {k : Key} : k ∈ agentKeys allow m nodes a ↔
    k.agent = a ∧ k.time ≤ m ∧ k.node < nodes ∧ allow a k.time k.node = true := by
  simp only [agentKeys, List.mem_flatMap, List.mem_range, List.mem_map, List.mem_filter]
  constructor
  · intro h
    obtain ⟨t, ht, v, hv, rfl⟩ := h
    exact ⟨rfl, Nat.le_of_lt_succ ht, hv⟩
  · intro h
    obtain ⟨rfl, ht, hv⟩ := h
    exact ⟨k.time, Nat.lt_succ_of_le ht, k.node, hv, rfl⟩

theorem mem_admittedKeys {k : Key} : k ∈ admittedKeys allow m agents nodes ↔
    k.agent < agents ∧ k.time ≤ m ∧ k.node < nodes ∧ allow k.agent k.time k.node = true := by
  simp only [admittedKeys, List.mem_flatMap, List.mem_range, mem_agentKeys]
  constructor
  · intro h
    obtain ⟨a, ha, rfl, hk⟩ := h
    exact ⟨ha, hk⟩
  · intro h
    exact ⟨k.agent, h.1, rfl, h.2⟩

theorem pairwise_agentKeys : (agentKeys allow m nodes a).Pairwise Key.Before := by
  rw [agentKeys, List.pairwise_flatMap]
  constructor
  · intro t _
    rw [List.pairwise_map]
    apply (List.pairwise_lt_range.filter _).imp
    intro v w hlt
    exact Or.inr ⟨rfl, Or.inr ⟨rfl, hlt⟩⟩
  · apply List.pairwise_lt_range.imp
    intro t t' hlt k hk l hl
    obtain ⟨v, _, rfl⟩ := List.mem_map.mp hk
    obtain ⟨w, _, rfl⟩ := List.mem_map.mp hl
    exact Or.inr ⟨rfl, Or.inl hlt⟩

theorem pairwise_admittedKeys : (admittedKeys allow m agents nodes).Pairwise Key.Before := by
  rw [admittedKeys, List.pairwise_flatMap]
  refine ⟨fun a _ => pairwise_agentKeys, ?_⟩
  apply List.pairwise_lt_range.imp
  intro a b hlt k hk l hl
  left
  rw [(mem_agentKeys.mp hk).1, (mem_agentKeys.mp hl).1]
  exact hlt

theorem nodup_admittedKeys : (admittedKeys allow m agents nodes).Nodup := by
  rw [List.nodup_iff_pairwise_ne]
  apply pairwise_admittedKeys.imp
  intro k l hbefore heq
  subst heq
  simp [Key.Before] at hbefore

theorem allot_eq (T : KeyTable) (a : Nat) :
    allot allow T a = T.internAll (agentKeys allow T.makespan T.nodes a) := by
  have hrow (T : KeyTable) (t : Nat) (vs : List Nat) :
      vs.foldl (fun T v => if allow a t v then (T.intern ⟨t, a, v⟩).2 else T) T =
        T.internAll ((vs.filter (allow a t)).map fun v => ⟨t, a, v⟩) := by
    rw [KeyTable.internAll, List.foldl_map, List.foldl_filter]
  unfold allot agentKeys
  -- every time step finds the table with the same number of nodes
  generalize List.range (T.makespan + 1) = ts
  induction ts generalizing T with
  | nil => rfl
  | cons t ts ih =>
    rw [List.foldl_cons, ih, hrow, List.flatMap_cons, KeyTable.internAll_append,
      KeyTable.nodes_internAll]

theorem foldl_allot (T : KeyTable) (as : List Nat) :
    as.foldl (allot allow) T = T.internAll (as.flatMap (agentKeys allow T.makespan T.nodes)) := by
  induction as generalizing T with
  | nil => rfl
  | cons a as ih =>
    rw [List.foldl_cons, ih, allot_eq, List.flatMap_cons, KeyTable.internAll_append,
      KeyTable.nodes_internAll, KeyTable.makespan_internAll]

variable (p : Problem)

theorem table_ofAdmission (allow : Admission) : (ofAdmission p m allow).table =
    (KeyTable.empty m p.agents.length p.graph.size).internAll
      (admittedKeys allow m p.agents.length p.graph.size) := foldl_allot _ _

theorem sizes_ofAdmission (allow : Admission) :
    (ofAdmission p m allow).table.sizes = (m, p.agents.length, p.graph.size) := by
  rw [table_ofAdmission, KeyTable.sizes_internAll]
  rfl

theorem covers_ofAdmission {allow : Admission} {k : Key} :
    (ofAdmission p m allow).table.Covers k ↔
      k.agent < p.agents.length ∧ k.time ≤ m ∧ k.node < p.graph.size := by
  have hsizes := sizes_ofAdmission p (m := m) allow
  simp only [KeyTable.sizes, Prod.mk.injEq] at hsizes
  rw [KeyTable.Covers, hsizes.1, hsizes.2.1, hsizes.2.2]
  omega

/-- The table of a formula lists the admitted keys. -/
theorem lists_ofAdmission (allow : Admission) : (ofAdmission p m allow).table.Lists
    (admittedKeys allow m p.agents.length p.graph.size) := by
  rw [table_ofAdmission]
  apply (KeyTable.lists_empty _ _ _).internAll
  · intro k hk
    obtain ⟨hagent, htime, hnode, _⟩ := mem_admittedKeys.mp hk
    unfold KeyTable.Covers KeyTable.empty
    exact ⟨Nat.lt_succ_of_le htime, hagent, hnode⟩
  · simpa using nodup_admittedKeys

/-- Windows for the agents, one each and in order. -/
structure WindowsFor (ws : List (Window p.graph)) : Prop where
  perAgent : ws.length = p.agents.length
  advanced : ∀ (i : Nat) (a : Agent) (w : Window p.graph), p.agents[i]? = some a →
    ws[i]? = some w → w.Advanced a

/-- Windows for the agents that have all ticked past `m`. -/
structure WindowsPast (m : Nat) (ws : List (Window p.graph)) : Prop extends WindowsFor p ws where
  past : ∀ w ∈ ws, m < w.ticks

/-- What `build` is to be called with: no windows, or those of the agents, ticked past `m`. -/
def Prepared (m : Nat) (windows : Option (List (Window p.graph))) : Prop :=
  ∀ ws, windows = some ws → WindowsPast p m ws

/-- The keys that get a variable: all of them, or those that the windows admit. -/
def allowed {g : Graph} (m : Nat) : Option (List (Window g)) → Admission
  | none => fun _ _ _ => true
  | some ws => admission m ws.toArray

variable {p} {ws : List (Window p.graph)} {windows : Option (List (Window p.graph))} {f : Formula}

theorem windowsFor_start : WindowsFor p (p.agents.map (Window.start p.graph)) := by
  constructor
  · exact List.length_map ..
  · intro i a w ha hw
    rw [List.getElem?_map, ha, Option.map_some, Option.some.injEq] at hw
    exact hw ▸ .start

theorem WindowsFor.extend (h : WindowsFor p ws) (m : Nat) :
    WindowsPast p m (ws.map (Window.extend · m)) := by
  refine ⟨⟨(List.length_map ..).trans h.perAgent, ?_⟩, ?_⟩
  · intro i a w ha hw
    rw [List.getElem?_map, Option.map_eq_some_iff] at hw
    obtain ⟨w', hw', rfl⟩ := hw
    have hin := p.admissible.inside a (List.mem_of_getElem? ha)
    exact (h.advanced i a w' ha hw').extend hin m
  · intro w hw
    obtain ⟨w', _, rfl⟩ := List.mem_map.mp hw
    exact w'.lt_ticks_extend m

theorem prepared_none : Prepared p m none := fun _ h => by cases h

theorem WindowsPast.prepared (h : WindowsPast p m ws) : Prepared p m (some ws) :=
  fun _ hws => Option.some.inj hws ▸ h

theorem prepared_extend (h : ∀ ws, windows = some ws → WindowsFor p ws) (m : Nat) :
    Prepared p m (windows.map fun ws => ws.map (Window.extend · m)) := by
  intro ws' hws'
  obtain ⟨ws, hws, rfl⟩ := Option.map_eq_some_iff.mp hws'
  exact (h ws hws).extend m

theorem WindowsPast.window (h : WindowsPast p m ws) {i : Nat} {agent : Agent}
    (hi : p.agents[i]? = some agent) : ∃ w, ws[i]? = some w ∧ w.Advanced agent ∧ m < w.ticks := by
  have hlt : i < ws.length := h.perAgent ▸ (List.getElem?_eq_some_iff.mp hi).1
  have hw := List.getElem?_eq_getElem hlt
  exact ⟨ws[i], hw, h.advanced i agent _ hi hw, h.past _ (List.getElem_mem hlt)⟩

/-- Windows admit the keys on the walks from end to end. -/
theorem WindowsPast.admission_iff (h : WindowsPast p m ws) {i t v : Nat} {agent : Agent}
    (hi : p.agents[i]? = some agent) : admission m ws.toArray i t v = true ↔
      t ≤ m ∧ p.graph.Walk agent.initial t v ∧ p.graph.Walk v (m - t) agent.goal := by
  obtain ⟨w, hw, hadvanced, hticks⟩ := h.window hi
  rw [← hadvanced.admits_iff (p.admissible.inside agent (List.mem_of_getElem? hi)) hticks]
  simp [admission, hw]

theorem WindowsPast.reaches_iff (h : WindowsPast p m ws) {i : Nat} {agent : Agent}
    {w : Window p.graph} (hi : p.agents[i]? = some agent) (hw : ws[i]? = some w) :
    w.reaches m = true ↔ p.graph.Walk agent.initial m agent.goal := by
  have hadvanced := h.advanced i agent w hi hw
  have hticks := h.past w (List.mem_of_getElem? hw)
  exact hadvanced.reaches_iff (p.admissible.inside agent (List.mem_of_getElem? hi)) hticks

/-- All windows reach something exactly when every agent has a walk. -/
theorem WindowsPast.find_unreached (h : WindowsPast p m ws) :
    (ws.zipIdx.find? fun (w, _) => !w.reaches m) = none ↔
      ∀ a ∈ p.agents, p.graph.Walk a.initial m a.goal := by
  simp only [List.find?_eq_none, Bool.not_eq_true', Bool.not_eq_false]
  constructor
  · intro hall a ha
    obtain ⟨i, hi⟩ := List.mem_iff_getElem?.mp ha
    obtain ⟨w, hw, _⟩ := h.window hi
    exact (h.reaches_iff hi hw).mp (hall (w, i) (List.mem_zipIdx_iff_getElem?.mpr hw))
  · intro hall named hmem
    obtain ⟨w, i⟩ := named
    have hw := List.mem_zipIdx_iff_getElem?.mp hmem
    have hlt : i < p.agents.length := h.perAgent ▸ (List.getElem?_eq_some_iff.mp hw).1
    exact (h.reaches_iff (List.getElem?_eq_getElem hlt) hw).mpr (hall _ (List.getElem_mem hlt))

theorem Prepared.any_length_ne (h : Prepared p m windows) :
    windows.any (·.length != p.agents.length) = false := by
  cases windows with
  | none => rfl
  | some ws => simp [(h ws rfl).perAgent]

/-- There is nothing but the reason why there is no table. -/
theorem build_of_lack [Memory] (h : Prepared p m windows) {misuse : Misuse}
    (hlack : KeyTable.lack? m p.agents.length p.graph.size = some misuse) :
    build p m windows = .error misuse := by
  unfold build
  rw [h.any_length_ne, if_neg (by decide), hlack]

theorem exists_build [Memory] (h : Prepared p m windows)
    (hfits : KeyTable.Fits m p.agents.length p.graph.size) : ∃ e, build p m windows = .ok e := by
  unfold build
  rw [h.any_length_ne, if_neg (by decide), KeyTable.Fits.lack? hfits]
  cases windows with
  | none => exact ⟨_, rfl⟩
  | some ws =>
    dsimp only
    split
    next => exact ⟨_, rfl⟩
    next w a hsome =>
      have hat := List.mem_zipIdx_iff_getElem?.mp (List.mem_of_find?_eq_some hsome)
      rw [if_neg (Nat.not_le_of_lt ((h ws rfl).past w (List.mem_of_getElem? hat)))]
      exact ⟨_, rfl⟩

/-- There is a formula when its table fits and, if there are windows, every agent has a walk. -/
theorem build_eq_built_iff [Memory] (h : Prepared p m windows) :
    build p m windows = .ok (.built f) ↔
    KeyTable.Fits m p.agents.length p.graph.size ∧ f = ofAdmission p m (allowed m windows) ∧
      (windows ≠ none → ∀ a ∈ p.agents, p.graph.Walk a.initial m a.goal) := by
  unfold build
  rw [h.any_length_ne, if_neg (by decide)]
  by_cases hfits : KeyTable.Fits m p.agents.length p.graph.size
  · rw [KeyTable.Fits.lack? hfits]
    cases windows with
    | none => simp [hfits, allowed, eq_comm]
    | some ws =>
      have hfind := (h ws rfl).find_unreached
      dsimp only
      split
      next hnone =>
        constructor
        · intro hbuilt
          cases hbuilt
          exact ⟨hfits, rfl, fun _ => hfind.mp hnone⟩
        · intro hall
          rw [hall.2.1]
          rfl
      next w a hsome =>
        have hnot : ¬ ∀ a ∈ p.agents, p.graph.Walk a.initial m a.goal := fun hall => by
          rw [hfind.mpr hall] at hsome
          cases hsome
        simp only [ne_eq, reduceCtorEq, not_false_eq_true, true_implies, hnot, and_false, iff_false]
        split <;> simp
  · obtain ⟨misuse, hlack⟩ := KeyTable.exists_lack?_of_not_fits hfits
    simp [hlack, hfits]

end Encoding

end AgentPaths
