import AgentPaths.Proofs.Formula.Listing
import AgentPaths.Schedule.Decode

/-!
What decoding reads. Where an assignment answers for every key, decoding succeeds exactly when it
puts every agent on one node at each time, and the schedule then records these nodes.
-/
namespace AgentPaths

/-- A pass over a list succeeds when every element does, and collects the results in order. -/
theorem mapM_eq_ok_iff {ε α β : Type} {f : α → Except ε β} {l : List α} {ys : List β} :
    l.mapM f = .ok ys ↔ l.map f = ys.map .ok := by
  induction l generalizing ys with
  | nil => cases ys <;> simp [pure, Except.pure]
  | cons a rest ih =>
    rw [List.mapM_cons]
    cases ys with
    | nil => cases f a <;> cases rest.mapM f <;> simp [bind, Except.bind, pure, Except.pure]
    | cons z zs =>
      rw [List.map_cons, List.map_cons, List.cons.injEq, ← ih]
      cases f a <;> cases rest.mapM f <;> simp [bind, Except.bind, pure, Except.pure]

/-- A pass over a list fails with the first fault of an element. -/
theorem mapM_eq_error_iff {ε α β : Type} {f : α → Except ε β} {l : List α} {e : ε} :
    l.mapM f = .error e ↔ ∃ (i : Nat) (a : α), l[i]? = some a ∧ f a = .error e ∧
      ∀ (j : Nat) (b : α), j < i → l[j]? = some b → ∃ y, f b = .ok y := by
  induction l with
  | nil => simp [pure, Except.pure]
  | cons a rest ih =>
    rw [List.mapM_cons]
    cases ha : f a with
    | error e' =>
      simp only [bind, Except.bind, Except.error.injEq]
      constructor
      · rintro rfl
        exact ⟨0, a, rfl, ha, fun j b hj => absurd hj (Nat.not_lt_zero j)⟩
      · rintro ⟨i, b, hb, hfault, hbefore⟩
        cases i with
        | zero =>
          cases hb
          exact Except.error.inj (ha.symm.trans hfault)
        | succ i =>
          obtain ⟨y, hy⟩ := hbefore 0 a (Nat.succ_pos i) rfl
          cases ha.symm.trans hy
    | ok y =>
      have hrest : (do let y ← Except.ok y; let ys ← rest.mapM f; pure (y :: ys)) = .error e ↔
          rest.mapM f = .error e := by
        cases rest.mapM f <;> simp [bind, Except.bind, pure, Except.pure]
      rw [hrest, ih]
      constructor
      · rintro ⟨i, b, hb, hfault, hbefore⟩
        refine ⟨i + 1, b, hb, hfault, fun j c hj hc => ?_⟩
        cases j with
        | zero =>
          cases hc
          exact ⟨y, ha⟩
        | succ j => exact hbefore j c (Nat.lt_of_succ_lt_succ hj) hc
      · rintro ⟨i, b, hb, hfault, hbefore⟩
        cases i with
        | zero =>
          cases hb
          cases ha.symm.trans hfault
        | succ i =>
          exact ⟨i, b, hb, hfault, fun j c hj hc => hbefore (j + 1) c (Nat.succ_lt_succ hj) hc⟩

theorem mapM_range_eq_error_iff {ε β : Type} {f : Nat → Except ε β} {n : Nat} {e : ε} :
    (List.range n).mapM f = .error e ↔
      ∃ i < n, f i = .error e ∧ ∀ j < i, ∃ y, f j = .ok y := by
  simp only [mapM_eq_error_iff, List.getElem?_eq_some_iff, List.getElem_range, List.length_range]
  constructor
  · rintro ⟨i, _, ⟨hi, rfl⟩, hfault, hbefore⟩
    exact ⟨i, hi, hfault, fun j hj => hbefore j j hj ⟨Nat.lt_trans hj hi, rfl⟩⟩
  · rintro ⟨i, hi, hfault, hbefore⟩
    refine ⟨i, i, ⟨hi, rfl⟩, hfault, ?_⟩
    rintro j _ hj ⟨_, rfl⟩
    exact hbefore j hj

theorem mapM_range_eq_ok_iff {ε β : Type} {f : Nat → Except ε β} {n : Nat} {ys : List β} :
    (List.range n).mapM f = .ok ys ↔
      ys.length = n ∧ ∀ i < n, ∃ y, ys[i]? = some y ∧ f i = .ok y := by
  rw [mapM_eq_ok_iff]
  constructor
  · intro h
    have hlen : ys.length = n := by simpa using (congrArg List.length h).symm
    refine ⟨hlen, fun i hi => ⟨ys[i], List.getElem?_eq_getElem (by omega), ?_⟩⟩
    have hi' := congrArg (·[i]?) h
    simpa [hi, hlen] using hi'
  · intro hall
    obtain ⟨hlen, h⟩ := hall
    apply List.ext_getElem (by simp [hlen])
    intro i hi _
    obtain ⟨y, hy, hf⟩ := h i (by simpa using hi)
    obtain ⟨_, rfl⟩ := List.getElem?_eq_some_iff.mp hy
    simp [hf]

theorem exists_mapM_range_eq_ok_iff {ε β : Type} {f : Nat → Except ε β} {n : Nat} :
    (∃ ys, (List.range n).mapM f = .ok ys) ↔ ∀ i < n, ∃ y, f i = .ok y := by
  constructor
  · rintro ⟨ys, hys⟩ i hi
    obtain ⟨y, _, hy⟩ := (mapM_range_eq_ok_iff.mp hys).2 i hi
    exact ⟨y, hy⟩
  · intro h
    cases hpass : (List.range n).mapM f with
    | ok ys => exact ⟨ys, rfl⟩
    | error e =>
      obtain ⟨i, hi, hfault, _⟩ := mapM_range_eq_error_iff.mp hpass
      obtain ⟨y, hy⟩ := h i hi
      cases hfault.symm.trans hy

theorem filterM_eq_ok {ε α : Type} {f : α → Except ε Bool} {q : α → Bool} {l : List α}
    (h : ∀ a ∈ l, f a = .ok (q a)) : l.filterM f = .ok (l.filter q) := by
  have haux (l : List α) (h : ∀ a ∈ l, f a = .ok (q a)) (acc : List α) :
      l.filterAuxM f acc = .ok ((l.filter q).reverse ++ acc) := by
    induction l generalizing acc with
    | nil => rfl
    | cons a rest ih =>
      have hrest := ih fun b hb => h b (List.mem_cons_of_mem _ hb)
      rw [List.filterAuxM, h a List.mem_cons_self]
      cases hq : q a <;> simp [bind, Except.bind, hq, hrest]
  simp [List.filterM, haux l h, bind, Except.bind, pure, Except.pure]

namespace Schedule

/-- Every agent below `agents` has a path of `m` steps, whose node at each time is the only one
below `nodes` on which `stands` has the agent then. -/
structure Records (s : Schedule) (agents nodes m : Nat) (stands : Key → Bool) : Prop where
  count : s.paths.length = agents
  length : ∀ path ∈ s.paths, path.length = m + 1
  alone : ∀ i < agents, ∀ t ≤ m, ∃ v, s.position? i t = some v ∧
    (List.range nodes).filter (fun u => stands ⟨t, i, u⟩) = [v]

theorem Records.position_iff {s : Schedule} {agents nodes m : Nat} {stands : Key → Bool}
    (h : s.Records agents nodes m stands) {i t v : Nat} (hi : i < agents) (ht : t ≤ m) :
    s.position? i t = some v ↔ v < nodes ∧ stands ⟨t, i, v⟩ = true := by
  obtain ⟨w, hw, hfilter⟩ := h.alone i hi t ht
  have hmem : v ∈ (List.range nodes).filter (fun u => stands ⟨t, i, u⟩) ↔ v = w := by
    rw [hfilter, List.mem_singleton]
  rw [List.mem_filter, List.mem_range] at hmem
  rw [hw, hmem, Option.some.injEq, eq_comm]

theorem Records.agree {s : Schedule} {agents nodes m : Nat} {stands stands' : Key → Bool}
    (h : s.Records agents nodes m stands) (h' : s.Records agents nodes m stands') {k : Key}
    (hagent : k.agent < agents) (htime : k.time ≤ m) (hnode : k.node < nodes) :
    stands k = stands' k := by
  have hiff := (h.position_iff hagent htime (v := k.node)).symm.trans (h'.position_iff hagent htime)
  simpa [hnode, ← Bool.eq_iff_iff] using hiff

/-- An assignment answers for every key of a formula, as `stands` does. -/
def Answers (f : Formula) (values : Assignment) (stands : Key → Bool) : Prop :=
  ∀ k, f.table.Covers k → occupies f values k = .ok (stands k)

variable {f : Formula} {values : Assignment} {stands : Key → Bool} {s : Schedule}

theorem upTo_of_le {known count : Nat} (h : count ≤ known) :
    upTo known count = List.range count := by
  rw [upTo, Nat.min_eq_left (Nat.le_succ_of_le h)]

/-- A table that can be laid out leaves room for the schedules of its agents, if it has two entries
for each of them or if there is one agent alone. -/
theorem hasRoom_of_entries [Memory] {m agents nodes count : Nat} (h : KeyTable.Fits m agents nodes)
    (hcount : count ≤ agents) (hnodes : 0 < nodes) (hentries : count ≤ 1 ∨ 2 ≤ (m + 1) * nodes) :
    HasRoom m count := by
  obtain ⟨_, hlack⟩ := KeyTable.fits_iff.mp h
  have htable : (m + 1) * nodes * count ≤ (m + 1) * agents * nodes := by
    rw [Nat.mul_right_comm]
    exact Nat.mul_le_mul_right _ (Nat.mul_le_mul_left _ hcount)
  rw [HasRoom, lack?, Option.or_eq_none_iff]
  constructor
  · rcases hentries with hfew | htwo
    · exact Memory.lack?_of_le (Nat.le_trans (Nat.mul_le_mul_left 24 hfew) (by decide))
    · apply Memory.lack?_mono _ hlack
      have htwice : 2 * count ≤ (m + 1) * nodes * count := Nat.mul_le_mul_right _ htwo
      omega
  · split
    next => rfl
    next hsome =>
      apply Memory.lack?_mono _ hlack
      have hpath : m + 1 ≤ (m + 1) * nodes * count := by
        rw [Nat.mul_assoc]
        exact Nat.le_mul_of_pos_right _ (Nat.mul_pos hnodes (Nat.pos_of_ne_zero hsome))
      omega

/-- Agents that do not outnumber the nodes always have that. -/
theorem hasRoom_of_fits [Memory] {m agents nodes count : Nat} (h : KeyTable.Fits m agents nodes)
    (hcount : count ≤ agents) (hnodes : count ≤ nodes) : HasRoom m count := by
  rcases Nat.eq_zero_or_pos count with rfl | hpos
  · exact Option.or_eq_none_iff.mpr ⟨Memory.lack?_of_le (Nat.zero_le _), rfl⟩
  · apply hasRoom_of_entries h hcount (Nat.lt_of_lt_of_le hpos hnodes)
    by_cases hfew : count ≤ 1
    · exact Or.inl hfew
    · exact Or.inr (Nat.le_trans (by omega) (Nat.le_mul_of_pos_left nodes (Nat.succ_pos m)))

/-- An agent is on exactly one of the nodes below `nodes` at a time. -/
def Alone (stands : Key → Bool) (nodes a t : Nat) : Prop :=
  ∃ v, (List.range nodes).filter (fun u => stands ⟨t, a, u⟩) = [v]

variable {agents nodes a t : Nat}

theorem nodeAt_eq (h : Answers f values stands) (ha : a < f.table.agents) (ht : t ≤ f.makespan)
    (hnodes : nodes ≤ f.table.nodes) : nodeAt f nodes values a t =
      match (List.range nodes).filter fun u => stands ⟨t, a, u⟩ with
      | [v] => .ok v
      | occupied => .error (.inconsistent a t occupied) := by
  have hfilter : ((List.range nodes).filterM fun u => occupies f values ⟨t, a, u⟩) =
      .ok ((List.range nodes).filter fun u => stands ⟨t, a, u⟩) :=
    filterM_eq_ok fun u hu =>
      h _ ⟨Nat.lt_succ_of_le ht, ha, Nat.lt_of_lt_of_le (List.mem_range.mp hu) hnodes⟩
  rw [nodeAt, upTo_of_le hnodes, hfilter]
  split <;> simp_all

theorem nodeAt_eq_ok_iff (h : Answers f values stands) (ha : a < f.table.agents)
    (ht : t ≤ f.makespan) (hnodes : nodes ≤ f.table.nodes) {v : Nat} :
    nodeAt f nodes values a t = .ok v ↔
      (List.range nodes).filter (fun u => stands ⟨t, a, u⟩) = [v] := by
  rw [nodeAt_eq h ha ht hnodes]
  split <;> simp_all

theorem nodeAt_eq_error_iff (h : Answers f values stands) (ha : a < f.table.agents)
    (ht : t ≤ f.makespan) (hnodes : nodes ≤ f.table.nodes) {e : DecodeError} :
    nodeAt f nodes values a t = .error e ↔ ¬Alone stands nodes a t ∧
      e = .inconsistent a t ((List.range nodes).filter fun u => stands ⟨t, a, u⟩) := by
  rw [nodeAt_eq h ha ht hnodes]
  split
  next v hv => simp [show Alone stands nodes a t from ⟨v, hv⟩]
  next hnot =>
    simp [show ¬Alone stands nodes a t from fun ⟨v, hv⟩ => hnot v hv, eq_comm]

theorem decode_eq [Memory] (hagents : agents ≤ f.table.agents) (hroom : HasRoom f.makespan agents) :
    decode f agents nodes values =
      match (List.range agents).mapM fun a =>
        (List.range (f.makespan + 1)).mapM fun t => nodeAt f nodes values a t with
      | .ok paths => .ok ⟨paths⟩
      | .error e => .error e := by
  rw [decode, show lack? f.makespan agents = none from hroom, upTo_of_le hagents]
  simp only [bind, Except.bind, pure, Except.pure]
  split <;> simp_all

/-- A schedule is decoded exactly if it records where the assignment has the agents. -/
theorem decode_eq_ok_iff [Memory] (h : Answers f values stands) (hagents : agents ≤ f.table.agents)
    (hnodes : nodes ≤ f.table.nodes) (hroom : HasRoom f.makespan agents) :
    decode f agents nodes values = .ok s ↔ s.Records agents nodes f.makespan stands := by
  have hpaths : decode f agents nodes values = .ok s ↔
      ((List.range agents).mapM fun a => (List.range (f.makespan + 1)).mapM fun t =>
        nodeAt f nodes values a t) = .ok s.paths := by
    rw [decode_eq hagents hroom]
    cases s
    split <;> simp_all
  rw [hpaths, mapM_range_eq_ok_iff]
  simp only [mapM_range_eq_ok_iff]
  constructor
  · intro hpasses
    obtain ⟨hcount, hall⟩ := hpasses
    refine ⟨hcount, ?_, ?_⟩
    · intro path hpath
      obtain ⟨i, hi⟩ := List.mem_iff_getElem?.mp hpath
      obtain ⟨path', hi', hlength, _⟩ := hall i (hcount ▸ (List.getElem?_eq_some_iff.mp hi).1)
      rw [hi] at hi'
      cases hi'
      exact hlength
    · intro i hi t ht
      obtain ⟨path, hpath, _, hat⟩ := hall i hi
      obtain ⟨v, hv, hnode⟩ := hat t (by omega)
      exact ⟨v, by simp [position?, hpath, hv],
        (nodeAt_eq_ok_iff h (by omega) ht hnodes).mp hnode⟩
  · intro hrecords
    obtain ⟨hcount, hlength, halone⟩ := hrecords
    refine ⟨hcount, fun i hi => ?_⟩
    have hpath : s.paths[i]? = some s.paths[i] := List.getElem?_eq_getElem (by omega)
    refine ⟨_, hpath, hlength _ (List.getElem_mem _), fun t ht => ?_⟩
    obtain ⟨v, hv, hfilter⟩ := halone i hi t (by omega)
    refine ⟨v, ?_, (nodeAt_eq_ok_iff h (by omega) (by omega) hnodes).mpr hfilter⟩
    simpa [position?, hpath] using hv

/-- Decoding fails at the first time at which the first agent that is not always on one node is not,
with the nodes that it is on then. -/
theorem decode_eq_error_iff [Memory] (h : Answers f values stands)
    (hagents : agents ≤ f.table.agents)
    (hnodes : nodes ≤ f.table.nodes) (hroom : HasRoom f.makespan agents) {e : DecodeError} :
    decode f agents nodes values = .error e ↔ ∃ a < agents, ∃ t ≤ f.makespan,
      e = .inconsistent a t ((List.range nodes).filter fun u => stands ⟨t, a, u⟩) ∧
      ¬Alone stands nodes a t ∧ (∀ t' < t, Alone stands nodes a t') ∧
      ∀ a' < a, ∀ t' ≤ f.makespan, Alone stands nodes a' t' := by
  have hat {a t : Nat} (ha : a < agents) (ht : t ≤ f.makespan) :
      (∃ v, nodeAt f nodes values a t = .ok v) ↔ Alone stands nodes a t :=
    exists_congr fun v => nodeAt_eq_ok_iff h (by omega) ht hnodes
  have hpass : decode f agents nodes values = .error e ↔
      ((List.range agents).mapM fun a => (List.range (f.makespan + 1)).mapM fun t =>
        nodeAt f nodes values a t) = .error e := by
    rw [decode_eq hagents hroom]
    split <;> simp_all
  rw [hpass]
  simp only [mapM_range_eq_error_iff, exists_mapM_range_eq_ok_iff, Nat.lt_succ_iff]
  constructor
  · rintro ⟨a, ha, ⟨t, ht, hnode, hbefore⟩, hfirst⟩
    obtain ⟨halone, he⟩ := (nodeAt_eq_error_iff h (by omega) ht hnodes).mp hnode
    exact ⟨a, ha, t, ht, he, halone, fun t' ht' => (hat ha (by omega)).mp (hbefore t' ht'),
      fun a' ha' t' ht' => (hat (by omega) ht').mp (hfirst a' ha' t' ht')⟩
  · rintro ⟨a, ha, t, ht, he, halone, hbefore, hfirst⟩
    refine ⟨a, ha, ⟨t, ht, (nodeAt_eq_error_iff h (by omega) ht hnodes).mpr ⟨halone, he⟩, ?_⟩, ?_⟩
    · exact fun t' ht' => (hat ha (by omega)).mpr (hbefore t' ht')
    · exact fun a' ha' t' ht' => (hat (by omega) ht').mpr (hfirst a' ha' t' ht')

/-- Where every key has an answer and there is room for the paths, decoding is no misuse. -/
theorem decode_ne_misuse [Memory] (h : Answers f values stands) (hagents : agents ≤ f.table.agents)
    (hnodes : nodes ≤ f.table.nodes) (hroom : HasRoom f.makespan agents) (m : Misuse) :
    decode f agents nodes values ≠ .error (.misuse m) := by
  intro herror
  obtain ⟨a, _, t, _, he, _⟩ := (decode_eq_error_iff h hagents hnodes hroom).mp herror
  cases he

/-- A schedule can be recorded whenever every agent is on one node at each time. -/
theorem exists_records {m : Nat} (h : ∀ i < agents, ∀ t ≤ m, Alone stands nodes i t) :
    ∃ s : Schedule, s.Records agents nodes m stands := by
  refine ⟨⟨(List.range agents).map fun i => (List.range (m + 1)).map fun t =>
    ((List.range nodes).find? fun u => stands ⟨t, i, u⟩).getD 0⟩, by simp, by simp, ?_⟩
  intro i hi t ht
  obtain ⟨v, hv⟩ := h i hi t ht
  have hfirst : ((List.range nodes).find? fun u => stands ⟨t, i, u⟩) = some v := by
    rw [← List.head?_filter, hv, List.head?_cons]
  exact ⟨v, by simp [position?, hi, Nat.lt_succ_of_le ht, hfirst], hv⟩

end Schedule

end AgentPaths
