import AgentPaths.Proofs.Encoding.Conduct
import AgentPaths.Proofs.Problem.Validation
import AgentPaths.Proofs.Schedule.Checking
import AgentPaths.Proofs.Schedule.Decoding

/-!
The models of a formula are the schedules that solve its problem. A model places the agents
according to the conduct, decoding records the places, and what is recorded is a solution; a
solution places the agents so that only admitted keys are needed, and no other assignment is decoded
to it.
-/
namespace AgentPaths

namespace IsSolution

variable {p : Problem} {m : Nat} {s : Schedule}

theorem path (hs : IsSolution p m s) {i : Nat} {a : Agent} (hi : p.agents[i]? = some a) :
    ∃ path, IsJourney p.graph m a path ∧ ∀ t, s.position? i t = path[t]? := by
  have hlt : i < s.paths.length := hs.count ▸ (List.getElem?_eq_some_iff.mp hi).1
  exact ⟨s.paths[i], hs.journeys i a _ hi (List.getElem?_eq_getElem hlt),
    fun t => by simp [Schedule.position?, List.getElem?_eq_getElem hlt]⟩

/-- Where an agent of a solution is at a time, it can be on its way. -/
theorem walks (hs : IsSolution p m s) {i t v : Nat} {a : Agent} (hi : p.agents[i]? = some a)
    (hv : s.position? i t = some v) :
    t ≤ m ∧ p.graph.Walk a.initial t v ∧ p.graph.Walk v (m - t) a.goal := by
  obtain ⟨path, hjourney, hposition⟩ := hs.path hi
  exact exists_isJourney_through.mp ⟨path, hjourney, (hposition t).symm.trans hv⟩

theorem walk_ends (hs : IsSolution p m s) : ∀ a ∈ p.agents, p.graph.Walk a.initial m a.goal := by
  intro a ha
  obtain ⟨i, hi⟩ := List.mem_iff_getElem?.mp ha
  obtain ⟨path, hjourney, _⟩ := hs.path hi
  apply hjourney.walk hjourney.start
  rw [Nat.zero_add]
  exact hjourney.finish

/-- A solution records any placing that has the agents where it has them. -/
theorem records (hs : IsSolution p m s) {stands : Key → Bool}
    (h : ∀ i < p.agents.length, ∀ t ≤ m, ∀ v < p.graph.size,
      stands ⟨t, i, v⟩ = true ↔ s.position? i t = some v) :
    s.Records p.agents.length p.graph.size m stands := by
  refine ⟨hs.count, hs.length, fun i hi t ht => ?_⟩
  obtain ⟨path, hjourney, hposition⟩ := hs.path (List.getElem?_eq_getElem hi)
  have hlt : t < path.length := by
    rw [hjourney.length]
    omega
  have hv : s.position? i t = some path[t] := (hposition t).trans (List.getElem?_eq_getElem hlt)
  have hin := p.admissible.inside _ (List.getElem_mem hi)
  have hvn := (hs.walks (List.getElem?_eq_getElem hi) hv).2.1.lt_size hin.1
  refine ⟨path[t], hv, filter_range_eq_singleton hvn ((h i hi t ht _ hvn).mpr hv) ?_⟩
  intro u hu hsu
  have hpu := (h i hi t ht u hu).mp hsu
  rw [hv, Option.some.injEq] at hpu
  exact hpu.symm

end IsSolution

namespace Schedule.Records

variable {p : Problem} {m : Nat} {stands : Key → Bool} {s : Schedule}

theorem lt_of_position (h : s.Records p.agents.length p.graph.size m stands) {i t v : Nat}
    (hv : s.position? i t = some v) : i < p.agents.length ∧ t ≤ m := by
  obtain ⟨path, hpath, hnode⟩ := Option.bind_eq_some_iff.mp hv
  have hlength := h.length path (List.mem_of_getElem? hpath)
  have hi := (List.getElem?_eq_some_iff.mp hpath).1
  have ht := (List.getElem?_eq_some_iff.mp hnode).1
  exact ⟨h.count ▸ hi, by omega⟩

theorem stands_of_position (h : s.Records p.agents.length p.graph.size m stands) {i t v : Nat}
    (hv : s.position? i t = some v) : v < p.graph.size ∧ stands ⟨t, i, v⟩ = true := by
  obtain ⟨hi, ht⟩ := h.lt_of_position hv
  exact (h.position_iff hi ht).mp hv

theorem position_of_stands (h : s.Records p.agents.length p.graph.size m stands) {i t v : Nat}
    (hi : i < p.agents.length) (ht : t ≤ m) (hv : v < p.graph.size) (hs : stands ⟨t, i, v⟩ = true) :
    s.position? i t = some v := (h.position_iff hi ht).mpr ⟨hv, hs⟩

theorem isJourney (h : s.Records p.agents.length p.graph.size m stands) (hc : Conduct p m stands)
    {i : Nat} {a : Agent} {path : List Nat} (hi : p.agents[i]? = some a)
    (hpath : s.paths[i]? = some path) : IsJourney p.graph m a path := by
  have hlt := (List.getElem?_eq_some_iff.mp hi).1
  have hin := p.admissible.inside a (List.mem_of_getElem? hi)
  have hposition (t : Nat) : s.position? i t = path[t]? := by simp [position?, hpath]
  refine ⟨h.length path (List.mem_of_getElem? hpath), ?_, ?_, ?_⟩
  · rw [← hposition]
    exact h.position_of_stands hlt (Nat.zero_le m) hin.1 (by simp [hc.starts i a hi _ hin.1])
  · rw [← hposition]
    exact h.position_of_stands hlt (Nat.le_refl m) hin.2 (by simp [hc.finishes i a hi _ hin.2])
  · intro t u v hu hv
    rw [← hposition] at hu hv
    obtain ⟨hun, hsu⟩ := h.stands_of_position hu
    have ht := (h.lt_of_position hv).2
    -- the move goes to some node, which can only be the recorded one
    obtain ⟨w, hw, hsw⟩ := hc.moves i hlt t (by omega) u hun hsu
    have hwn : w < p.graph.size := by
      rcases hw with rfl | he
      · exact hun
      · exact (Graph.lt_of_hasEdge he).2
    have hwv := h.position_of_stands hlt ht hwn hsw
    rw [hv, Option.some.injEq] at hwv
    subst hwv
    rcases hw with rfl | he
    · exact Or.inl rfl
    · exact Or.inr he

theorem isSolution (h : s.Records p.agents.length p.graph.size m stands) (hc : Conduct p m stands) :
    IsSolution p m s := by
  refine ⟨h.count, fun i a path hi hpath => h.isJourney hc hi hpath, ?_, ?_⟩
  · intro a b t u v hab ha hb huv
    subst huv
    obtain ⟨hbn, ht⟩ := h.lt_of_position hb
    obtain ⟨hun, hsa⟩ := h.stands_of_position ha
    have hsb := hc.apart t ht u hun a b hab hbn hsa
    simp [(h.stands_of_position hb).2] at hsb
  · intro a b t u v hab huv ha ha' hb hb'
    obtain ⟨hbn, ht⟩ := h.lt_of_position hb'
    have hi : p.agents[a]? = some p.agents[a] := List.getElem?_eq_getElem (by omega)
    obtain ⟨path, hpath, hu⟩ := Option.bind_eq_some_iff.mp ha
    obtain ⟨path', hpath', hv⟩ := Option.bind_eq_some_iff.mp ha'
    cases hpath.symm.trans hpath'
    -- agent `a` crosses an edge, so the rule against crossing it both ways applies
    have he := ((h.isJourney hc hi hpath).steps t u v hu hv).resolve_left huv
    have hsb := hc.noSwap a b hab hbn t (by omega) u v (Ne.symm huv) he (h.stands_of_position ha).2
      (h.stands_of_position ha').2 (h.stands_of_position hb).2
    simp [(h.stands_of_position hb').2] at hsb

theorem stands_eq (h : s.Records p.agents.length p.graph.size m stands) {i t v w : Nat}
    (hw : s.position? i t = some w) (hv : v < p.graph.size) : stands ⟨t, i, v⟩ = (v == w) := by
  obtain ⟨hi, ht⟩ := h.lt_of_position hw
  have hiff := h.position_iff hi ht (v := v)
  rw [hw, Option.some.injEq] at hiff
  rw [Bool.eq_iff_iff, beq_iff_eq]
  exact ⟨fun hs => (hiff.mpr ⟨hv, hs⟩).symm, fun hvw => (hiff.mp hvw.symm).2⟩

theorem conduct (h : s.Records p.agents.length p.graph.size m stands) (hs : IsSolution p m s) :
    Conduct p m stands := by
  refine ⟨?_, ?_, ?_, ?_, ?_, ?_⟩
  · intro a ha t ht v hv hsv
    obtain ⟨path, hjourney, hposition⟩ := hs.path (List.getElem?_eq_getElem ha)
    obtain ⟨u, hu, _⟩ := h.alone a ha (t + 1) ht
    have hsu := (h.stands_of_position hu).2
    have hpv := h.position_of_stands ha (by omega) hv hsv
    rw [hposition] at hu hpv
    refine ⟨u, ?_, hsu⟩
    rcases hjourney.steps t v u hpv hu with huv | he
    · exact Or.inl huv.symm
    · exact Or.inr he
  · intro t ht v hv a b hab hb hsa
    rw [Bool.eq_false_iff]
    intro hsb
    exact hs.apart a b t v v hab (h.position_of_stands (by omega) ht hv hsa)
      (h.position_of_stands hb ht hv hsb) rfl
  · intro a ha t ht u v huv hv hsu
    rw [h.stands_eq (h.position_of_stands ha ht (by omega) hsu) hv, beq_eq_false_iff_ne]
    omega
  · intro a b hab hb t ht v u huv he hav hau hbu
    obtain ⟨hv, hu⟩ := Graph.lt_of_hasEdge he
    rw [Bool.eq_false_iff]
    intro hbv
    exact hs.noSwap a b t v u hab (Ne.symm huv)
      (h.position_of_stands (by omega) (by omega) hv hav)
      (h.position_of_stands (by omega) ht hu hau)
      (h.position_of_stands hb (by omega) hu hbu) (h.position_of_stands hb ht hv hbv)
  · intro i agent hi v hv
    obtain ⟨path, hjourney, hposition⟩ := hs.path hi
    exact h.stands_eq ((hposition 0).trans hjourney.start) hv
  · intro i agent hi v hv
    obtain ⟨path, hjourney, hposition⟩ := hs.path hi
    exact h.stands_eq ((hposition m).trans hjourney.finish) hv

end Schedule.Records

namespace Encoding

variable {p : Problem} {m : Nat} {allow : Admission} {values : Assignment}

/-- Where an assignment of the variables of a formula puts the agents. -/
def stands (f : Formula) (values : Assignment) : Key → Bool :=
  f.table.literals.stands values.value

theorem stands_of_find {f : Formula} {k : Key} {i : Nat} (h : f.table.find? k = some i) :
    stands f values k = values.value i := by
  simp [stands, Literals.stands, KeyTable.literals, h]

theorem stands_of_find_none {f : Formula} {k : Key} (h : f.table.find? k = none) :
    stands f values k = false := by
  simp [stands, Literals.stands, KeyTable.literals, h]

theorem answers_stands {f : Formula} {ks : List Key} (h : f.table.Lists ks)
    (hsize : f.varCount ≤ values.size) : Schedule.Answers f values (stands f values) := by
  intro k hk
  unfold Schedule.occupies Formula.find?
  rw [if_pos hk]
  cases hi : f.table.find? k with
  | none => simp [stands_of_find_none hi]
  | some i =>
    have hlt : i < values.size := Nat.lt_of_lt_of_le (h.lt_count hi) hsize
    simp [stands_of_find hi, Literal.holds?_of_lt, Literal.positive, Literal.holds, hlt]

/-- The literals of a clause are those of the keys. -/
theorem var_lt_of_clause? {x : Literals} {n : Nat} (hx : ∀ t a v y, x t a v = some y → y.var < n)
    {r : Rule} {c : Clause} (hc : r.clause? x = some c) : ∀ l ∈ c, l.var < n := by
  induction r generalizing c with
  | nil =>
    cases hc
    simp
  | cons l rest ih =>
    rw [Rule.clause?] at hc
    split at hc
    next y hy =>
      obtain ⟨c', hc', rfl⟩ := Option.map_eq_some_iff.mp hc
      intro l' hl'
      rcases List.mem_cons.mp hl' with rfl | hl'
      · have := hx _ _ _ _ hy
        split <;> simpa [Literal.neg] using this
      · exact ih hc' l' hl'
    next =>
      split at hc
      next => cases hc
      next => exact ih hc

theorem clauses_ofAdmission (hends : EndsKnown p m (ofAdmission p m allow).table.literals) :
    (ofAdmission p m allow).clauses.toList =
      (rules p m).filterMap (Rule.clause? (ofAdmission p m allow).table.literals) :=
  clauses_eq hends

theorem var_lt_ofAdmission (hends : EndsKnown p m (ofAdmission p m allow).table.literals) :
    ∀ c ∈ (ofAdmission p m allow).clauses.toList, ∀ l ∈ c,
      l.var < (ofAdmission p m allow).varCount := by
  intro c hc
  rw [clauses_ofAdmission hends] at hc
  obtain ⟨r, _, hr⟩ := List.mem_filterMap.mp hc
  apply var_lt_of_clause? _ hr
  intro t a v y hy
  obtain ⟨i, hi, rfl⟩ := Option.map_eq_some_iff.mp hy
  exact (lists_ofAdmission p allow).lt_count hi

/-- A formula that knows where the agents start and finish is satisfied by the conduct. -/
theorem satisfied?_ofAdmission (hends : EndsKnown p m (ofAdmission p m allow).table.literals)
    (hsize : (ofAdmission p m allow).varCount ≤ values.size) :
    (ofAdmission p m allow).satisfied? values = some true ↔
      Conduct p m (stands (ofAdmission p m allow) values) := by
  unfold Formula.satisfied?
  rw [satisfied?_iff fun c hc l hl => Nat.lt_of_lt_of_le (var_lt_ofAdmission hends c hc l hl) hsize,
    clauses_ofAdmission hends, Rule.satisfies_clauses, ← rules_hold_iff]
  rfl

variable {windows : Option (List (Window p.graph))} {f : Formula} {s : Schedule}

theorem allowed_of_walk (h : Prepared p m windows) {i t v : Nat} {a : Agent}
    (hi : p.agents[i]? = some a) (ht : t ≤ m) (hbefore : p.graph.Walk a.initial t v)
    (hafter : p.graph.Walk v (m - t) a.goal) : allowed m windows i t v = true := by
  cases windows with
  | none => rfl
  | some ws => exact ((h ws rfl).admission_iff hi).mpr ⟨ht, hbefore, hafter⟩

theorem isSome_literals {k : Key} :
    ((ofAdmission p m allow).table.literals k.time k.agent k.node).isSome ↔
      k.agent < p.agents.length ∧ k.time ≤ m ∧ k.node < p.graph.size ∧
        allow k.agent k.time k.node = true := by
  rw [← mem_admittedKeys, (lists_ofAdmission p allow).mem_iff, KeyTable.literals, Option.isSome_map,
    Option.isSome_iff_exists]

theorem endsKnown_of_built [Memory] (h : Prepared p m windows)
    (hb : build p m windows = .ok (.built f)) : EndsKnown p m f.table.literals := by
  obtain ⟨_, rfl, hwalks⟩ := (build_eq_built_iff h).mp hb
  intro i a hi
  have hlt := (List.getElem?_eq_some_iff.mp hi).1
  have hin := p.admissible.inside a (List.mem_of_getElem? hi)
  have hends : allowed m windows i 0 a.initial = true ∧ allowed m windows i m a.goal = true := by
    by_cases hnone : windows = none
    · subst hnone
      exact ⟨rfl, rfl⟩
    · have hwalk := hwalks hnone a (List.mem_of_getElem? hi)
      exact ⟨allowed_of_walk h hi (Nat.zero_le m) .start hwalk,
        allowed_of_walk h hi (Nat.le_refl m) hwalk (by simp)⟩
  exact ⟨isSome_literals (k := ⟨0, i, a.initial⟩) |>.mpr ⟨hlt, Nat.zero_le m, hin.1, hends.1⟩,
    isSome_literals (k := ⟨m, i, a.goal⟩) |>.mpr ⟨hlt, Nat.le_refl m, hin.2, hends.2⟩⟩

theorem var_lt_of_built [Memory] (h : Prepared p m windows)
    (hb : build p m windows = .ok (.built f)) :
    ∀ c ∈ f.clauses.toList, ∀ l ∈ c, l.var < f.varCount := by
  have hends := endsKnown_of_built h hb
  obtain ⟨_, rfl, _⟩ := (build_eq_built_iff h).mp hb
  exact var_lt_ofAdmission hends

/-- A problem whose formula can be laid out leaves room for its schedules. -/
theorem hasRoom_of_fits [Memory] (h : KeyTable.Fits m p.agents.length p.graph.size) :
    Schedule.HasRoom m p.agents.length :=
  Schedule.hasRoom_of_fits h (Nat.le_refl _) p.admissible.length_le

/-- Decoding an assignment of the variables records where it has the agents. -/
theorem decode_eq_ok_iff_records [Memory] (h : Prepared p m windows)
    (hb : build p m windows = .ok (.built f)) (hsize : f.varCount ≤ values.size) :
    Schedule.decode f p.agents.length p.graph.size values = .ok s ↔
      s.Records p.agents.length p.graph.size m (stands f values) := by
  obtain ⟨hfits, rfl, _⟩ := (build_eq_built_iff h).mp hb
  have hsizes := sizes_ofAdmission p (m := m) (allowed m windows)
  simp only [KeyTable.sizes, Prod.mk.injEq] at hsizes
  obtain ⟨hmakespan, hagents, hnodes⟩ := hsizes
  have hdecode := Schedule.decode_eq_ok_iff (s := s)
    (answers_stands (lists_ofAdmission p (allowed m windows)) hsize) (Nat.le_of_eq hagents.symm)
    (Nat.le_of_eq hnodes.symm) (by rw [Formula.makespan, hmakespan]; exact hasRoom_of_fits hfits)
  rwa [Formula.makespan, hmakespan] at hdecode

/-- A model is decoded to a solution. -/
theorem exists_solution_of_model [Memory] (h : Prepared p m windows)
    (hb : build p m windows = .ok (.built f)) (hsize : f.varCount ≤ values.size)
    (hsat : f.satisfied? values = some true) : ∃ s,
      Schedule.decode f p.agents.length p.graph.size values = .ok s ∧ IsSolution p m s := by
  have hends := endsKnown_of_built h hb
  have hconduct : Conduct p m (stands f values) := by
    obtain ⟨_, rfl, _⟩ := (build_eq_built_iff h).mp hb
    exact (satisfied?_ofAdmission hends hsize).mp hsat
  have hrecords : ∃ s : Schedule, s.Records p.agents.length p.graph.size m (stands f values) := by
    apply Schedule.exists_records
    intro i hi t ht
    obtain ⟨v, _, hfilter⟩ := hconduct.filter_stands (List.getElem?_eq_getElem hi) ht
    exact ⟨v, hfilter⟩
  obtain ⟨s, hs⟩ := hrecords
  exact ⟨s, (decode_eq_ok_iff_records h hb hsize).mpr hs, hs.isSolution hconduct⟩

/-- The assignment that puts the agents where a schedule has them. -/
def assignment (ks : List Key) (s : Schedule) : Assignment :=
  (ks.map fun k => s.position? k.agent k.time == some k.node).toArray

theorem stands_assignment {ks : List Key} (h : f.table.Lists ks) {k : Key}
    (hk : s.position? k.agent k.time = some k.node → k ∈ ks) :
    stands f (assignment ks s) k = true ↔ s.position? k.agent k.time = some k.node := by
  cases hi : f.table.find? k with
  | none =>
    have hnot := mt hk (h.find?_eq_none.mp hi)
    simp [stands_of_find_none hi, hnot]
  | some i => simp [stands_of_find hi, Assignment.value, assignment, (h.find k i).mp hi]

/-- A solution has a formula, and a model of it that is decoded to the solution. -/
theorem exists_model_of_solution [Memory] (h : Prepared p m windows)
    (hfits : KeyTable.Fits m p.agents.length p.graph.size) (hs : IsSolution p m s) :
    ∃ f values, build p m windows = .ok (.built f) ∧ values.size = f.varCount ∧
      f.satisfied? values = some true ∧
      Schedule.decode f p.agents.length p.graph.size values = .ok s := by
  have hb := (build_eq_built_iff h).mpr ⟨hfits, rfl, fun _ => hs.walk_ends⟩
  have hlists := lists_ofAdmission p (m := m) (allowed m windows)
  generalize hkeys : admittedKeys (allowed m windows) m p.agents.length p.graph.size = ks at hlists
  have hsize : (assignment ks s).size = (ofAdmission p m (allowed m windows)).varCount := by
    simp [assignment, Formula.varCount, hlists.count]
  have hrecords : s.Records p.agents.length p.graph.size m
      (stands (ofAdmission p m (allowed m windows)) (assignment ks s)) := by
    apply hs.records
    intro i hi t ht v hv
    apply stands_assignment hlists
    intro hposition
    -- a solution only stands where the windows let it
    have hagent := List.getElem?_eq_getElem hi
    obtain ⟨_, hbefore, hafter⟩ := hs.walks hagent hposition
    rw [← hkeys, mem_admittedKeys]
    exact ⟨hi, ht, hv, allowed_of_walk h hagent ht hbefore hafter⟩
  have hle := Nat.le_of_eq hsize.symm
  refine ⟨_, _, hb, hsize, ?_, (decode_eq_ok_iff_records h hb hle).mpr hrecords⟩
  exact (satisfied?_ofAdmission (endsKnown_of_built h hb) hle).mpr (hrecords.conduct hs)

/-- Assignments of the variables that are decoded to one schedule are equal. -/
theorem eq_of_decode_eq [Memory] {values' : Assignment} (h : Prepared p m windows)
    (hb : build p m windows = .ok (.built f)) (hsize : values.size = f.varCount)
    (hsize' : values'.size = f.varCount)
    (hd : Schedule.decode f p.agents.length p.graph.size values = .ok s)
    (hd' : Schedule.decode f p.agents.length p.graph.size values' = .ok s) : values = values' := by
  have hrecords := (decode_eq_ok_iff_records h hb (Nat.le_of_eq hsize.symm)).mp hd
  have hrecords' := (decode_eq_ok_iff_records h hb (Nat.le_of_eq hsize'.symm)).mp hd'
  obtain ⟨_, rfl, _⟩ := (build_eq_built_iff h).mp hb
  have hlists := lists_ofAdmission p (m := m) (allowed m windows)
  apply Array.ext (hsize.trans hsize'.symm)
  intro i hi hi'
  -- the variable belongs to a key, and both assignments say of it what the schedule says
  have hlt : i < (admittedKeys (allowed m windows) m p.agents.length p.graph.size).length := by
    rwa [← hlists.count, ← Formula.varCount, ← hsize]
  have hfind := (hlists.find _ i).mpr (List.getElem?_eq_getElem hlt)
  have hmem := mem_admittedKeys.mp (List.getElem_mem hlt)
  have hstands := hrecords.agree hrecords' hmem.1 hmem.2.1 hmem.2.2.1
  rw [stands_of_find hfind, stands_of_find hfind] at hstands
  simpa [Assignment.value, hi, hi'] using hstands

end Encoding

end AgentPaths
