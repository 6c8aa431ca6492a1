import AgentPaths.Proofs.Search.Course
import Mathlib.Data.List.Infix
import Mathlib.Data.List.Nodup

/-!
The report of a search, for any oracle and any timeline: consecutive makespans that go on one after
the other, an outcome that is the verdict of the last attempt, and one call of the oracle for each
attempt that has its answer for a verdict. No verdict comes from nowhere: it is what the windows or
the oracle said, or the token has been set. The search errs if and only if a call does or its model
cannot be decoded.
-/
namespace AgentPaths.Search

/-- The oracle has given a call this answer, and the token was still clear after it. -/
def Answered [Memory] (p : Problem) (config : SearchConfig) (timeline : Timeline) (c : Consultation)
    (answer : Answer) : Prop :=
  c.answer = .ok answer ∧ ¬SetBy p config timeline (Moment.consulting c.makespan 0).position

/-- What a report says, where its verdicts come from, and how the calls of the oracle match its
attempts. -/
structure Report [Memory] (p : Problem) (config : SearchConfig) (timeline : Timeline)
    (attempts : List Attempt) (cs : List Consultation) (outcome : Outcome) : Prop where
  consecutive : attempts.map Attempt.makespan = List.range' config.minMakespan attempts.length
  within : ∀ a ∈ attempts, a.makespan ≤ config.maxMakespan
  goesOn : ∀ a ∈ attempts.dropLast, a.verdict.GoesOn
  solved : ∀ m, (∃ s, outcome = .solved m s) ↔
    ∃ a, attempts.getLast? = some a ∧ a.verdict = .satisfiable ∧ a.makespan = m
  aborted : ∀ m, outcome = .aborted m ↔
    ∃ a, attempts.getLast? = some a ∧ a.verdict = .cancelled ∧ a.makespan = m
  exhausted : outcome = .exhausted ↔ ∀ a ∈ attempts, a.verdict.GoesOn
  whole : outcome = .exhausted → attempts.length = config.maxMakespan + 1 - config.minMakespan
  unreachable : ∀ a ∈ attempts, ∀ agent, a.verdict = .unreachable agent →
    encodingAt p config a.makespan = .ok (.unreachable agent)
  unsatisfiable : ∀ a ∈ attempts, a.verdict = .unsatisfiable →
    ∃ c ∈ cs, c.makespan = a.makespan ∧ Answered p config timeline c .unsatisfiable
  satisfiable : ∀ m s, outcome = .solved m s → ∃ c ∈ cs, c.makespan = m ∧ ∃ model,
    Answered p config timeline c (.satisfiable model) ∧
      Schedule.decode c.formula p.agents.length p.graph.size model = .ok s
  cancelled : ∀ a ∈ attempts, a.verdict = .cancelled →
    SetBy p config timeline (Moment.consulting a.makespan 0).position
  once : ∀ a ∈ attempts, a.verdict = .unsatisfiable ∨ a.verdict = .satisfiable →
    (cs.map Consultation.makespan).count a.makespan = 1
  never : ∀ a ∈ attempts, ∀ agent, a.verdict = .unreachable agent →
    (cs.map Consultation.makespan).count a.makespan = 0
  atMostOnce : ∀ a ∈ attempts, a.verdict = .cancelled →
    (cs.map Consultation.makespan).count a.makespan ≤ 1
  sizes : ∀ c ∈ cs, ∃ a ∈ attempts, a.makespan = c.makespan ∧
    a.varCount = c.formula.varCount ∧ a.clauses = c.formula.clauses.size

variable {σ : Type} {p : Problem} {config : SearchConfig} {oracle : Oracle σ} {timeline : Timeline}
  {m : Nat} {initial : σ} {before : List Attempt} {cs : List Consultation}

namespace Refuted

theorem lt_of_mem [Memory] (h : Refuted p config timeline m before cs) {a : Attempt}
    (ha : a ∈ before) : config.minMakespan ≤ a.makespan ∧ a.makespan < m := by
  have hmem : a.makespan ∈ before.map Attempt.makespan := List.mem_map_of_mem ha
  rw [h.makespans, List.mem_range'_1, h.length] at hmem
  exact hmem

theorem makespan_le [Memory] (h : Refuted p config timeline m before cs) :
    ∀ a ∈ before, a.makespan ≤ config.maxMakespan := by
  intro a ha
  have hlt := h.lt_of_mem ha
  have hlast := h.le_last
  omega

theorem exists_attempt [Memory] (h : Refuted p config timeline m before cs) {c : Consultation}
    (hc : c ∈ cs) : c.attempt .unsatisfiable ∈ before := by
  have hmem : c.attempt .unsatisfiable ∈ cs.map (·.attempt .unsatisfiable) := List.mem_map_of_mem hc
  rw [← h.consulted] at hmem
  exact (List.mem_filter.mp hmem).1

/-- An attempt has called the oracle once, unless it was settled without. -/
theorem count_makespan [Memory] (h : Refuted p config timeline m before cs) {a : Attempt}
    (ha : a ∈ before) : (cs.map Consultation.makespan).count a.makespan =
      if a.verdict = .unsatisfiable then 1 else 0 := by
  have hcs : cs.map Consultation.makespan =
      (before.filter (·.verdict = .unsatisfiable)).map Attempt.makespan := by
    rw [h.consulted, List.map_map]
    rfl
  have hnodup : (before.map Attempt.makespan).Nodup := by
    rw [h.makespans]
    exact List.nodup_range'
  rw [hcs]
  split
  next hv =>
    have hsub := (List.filter_sublist (p := fun a : Attempt => a.verdict = .unsatisfiable)
      (l := before)).map Attempt.makespan
    refine List.count_eq_one_of_mem (hnodup.sublist hsub) (List.mem_map_of_mem ?_)
    exact List.mem_filter.mpr ⟨ha, decide_eq_true hv⟩
  next hv =>
    refine List.count_eq_zero.mpr fun hmem => ?_
    obtain ⟨b, hb, hmakespan⟩ := List.mem_map.mp hmem
    obtain ⟨hb, hverdict⟩ := List.mem_filter.mp hb
    -- makespans are distinct, so this is the attempt itself
    rw [List.inj_on_of_nodup_map hnodup hb ha hmakespan] at hverdict
    exact hv (of_decide_eq_true hverdict)

theorem count_eq_zero [Memory] (h : Refuted p config timeline m before cs) :
    (cs.map Consultation.makespan).count m = 0 := by
  refine List.count_eq_zero.mpr fun hmem => ?_
  obtain ⟨c, hc, rfl⟩ := List.mem_map.mp hmem
  exact Nat.lt_irrefl _ (h.lt_of_mem (h.exists_attempt hc)).2

/-- Every attempt that has been refuted was refuted for a reason. -/
theorem cause [Memory] (h : Refuted p config timeline m before cs) {a : Attempt} (ha : a ∈ before) :
    (∀ agent, a.verdict = .unreachable agent →
      encodingAt p config a.makespan = .ok (.unreachable agent)) ∧
    (a.verdict = .unsatisfiable →
      ∃ c ∈ cs, c.makespan = a.makespan ∧ Answered p config timeline c .unsatisfiable) := by
  induction h with
  | nil => cases ha
  | concat _ _ hrefutes ih =>
    rcases List.mem_append.mp ha with ha | ha
    · obtain ⟨hagent, hanswer⟩ := ih ha
      refine ⟨hagent, fun hv => ?_⟩
      obtain ⟨c, hc, hcause⟩ := hanswer hv
      exact ⟨c, List.mem_append_left _ hc, hcause⟩
    · rw [List.mem_singleton.mp ha]
      cases hrefutes with
      | unreachable hencoding =>
        constructor
        · intro agent hv
          cases hv
          exact hencoding
        · intro hv
          cases hv
      | @unsatisfiable c hm _ hanswer hclear =>
        constructor
        · intro agent hv
          cases hv
        · intro _
          exact ⟨c, List.mem_append_right _ (List.mem_singleton_self c), rfl, hanswer, hm ▸ hclear⟩

theorem report_exhausted [Memory] (h : Refuted p config timeline m before cs)
    (hlast : config.maxMakespan < m) : Report p config timeline before cs .exhausted where
  consecutive := h.makespans
  within := h.makespan_le
  goesOn a ha := h.goesOn a (List.mem_of_mem_dropLast ha)
  solved m' := by
    constructor
    · rintro ⟨s, hs⟩
      cases hs
    · rintro ⟨a, ha, hv, _⟩
      exact absurd (h.goesOn a (List.mem_of_getLast? ha)) (by simp [hv, Verdict.GoesOn])
  aborted m' := by
    constructor
    · intro habort
      cases habort
    · rintro ⟨a, ha, hv, _⟩
      exact absurd (h.goesOn a (List.mem_of_getLast? ha)) (by simp [hv, Verdict.GoesOn])
  exhausted := iff_of_true rfl h.goesOn
  whole _ := by
    have hlength := h.length
    have hle := h.le_last
    omega
  unreachable a ha := (h.cause ha).1
  unsatisfiable a ha := (h.cause ha).2
  satisfiable m' s hs := by cases hs
  cancelled a ha hv := absurd (h.goesOn a ha) (by simp [hv, Verdict.GoesOn])
  once a ha hv := by
    rw [h.count_makespan ha]
    rcases hv with hv | hv
    · exact if_pos hv
    · exact absurd (h.goesOn a ha) (by simp [hv, Verdict.GoesOn])
  never a ha agent hv := by
    rw [h.count_makespan ha, hv]
    rfl
  atMostOnce a ha _ := by
    rw [h.count_makespan ha]
    split <;> omega
  sizes c hc := ⟨_, h.exists_attempt hc, rfl, rfl, rfl⟩

end Refuted

namespace Closes

variable {a : Attempt} {more : List Consultation} {outcome : Outcome}

theorem makespan [Memory] (h : Closes p config timeline m a more outcome) : a.makespan = m := by
  cases h with
  | cancelled => rfl
  | overtaken hm => exact hm
  | solved hm => exact hm

theorem not_goesOn [Memory] (h : Closes p config timeline m a more outcome) :
    ¬a.verdict.GoesOn := by
  cases h <;> exact not_false

theorem solved_iff [Memory] (h : Closes p config timeline m a more outcome) (m' : Nat) :
    (∃ s, outcome = .solved m' s) ↔ a.verdict = .satisfiable ∧ a.makespan = m' := by
  rw [h.makespan]
  cases h <;> simp [Consultation.attempt]

theorem aborted_iff [Memory] (h : Closes p config timeline m a more outcome) (m' : Nat) :
    outcome = .aborted m' ↔ a.verdict = .cancelled ∧ a.makespan = m' := by
  rw [h.makespan]
  cases h <;> simp [Consultation.attempt]

theorem ne_exhausted [Memory] (h : Closes p config timeline m a more outcome) :
    outcome ≠ .exhausted := by
  cases h <;> simp

theorem attempt_eq [Memory] (h : Closes p config timeline m a more outcome) :
    ∀ c ∈ more, c.attempt a.verdict = a := by
  cases h <;> simp [Consultation.attempt]

theorem exists_answered [Memory] (h : Closes p config timeline m a more outcome) (m' : Nat)
    (s : Schedule) (hs : outcome = .solved m' s) : ∃ c ∈ more, c.makespan = m' ∧ ∃ model,
      Answered p config timeline c (.satisfiable model) ∧
        Schedule.decode c.formula p.agents.length p.graph.size model = .ok s := by
  cases h with
  | cancelled => cases hs
  | overtaken => cases hs
  | @solved c model _ hm _ hanswer hclear hdecode =>
    cases hs
    exact ⟨c, List.mem_singleton_self c, hm, model, ⟨hanswer, hm ▸ hclear⟩, hdecode⟩

theorem setBy_of_cancelled [Memory] (h : Closes p config timeline m a more outcome)
    (hv : a.verdict = .cancelled) :
    SetBy p config timeline (Moment.consulting a.makespan 0).position := by
  rw [h.makespan]
  cases h with
  | cancelled hset => exact hset.mono (Nat.le_succ _)
  | overtaken _ _ _ hset => exact hset
  | solved => cases hv

/-- Only a cancelled attempt may be without a call. -/
theorem map_makespan [Memory] (h : Closes p config timeline m a more outcome) :
    more.map Consultation.makespan = [m] ∨
      more.map Consultation.makespan = [] ∧ a.verdict = .cancelled := by
  cases h with
  | cancelled => exact Or.inr ⟨rfl, rfl⟩
  | overtaken hm => exact Or.inl (congrArg (fun x => [x]) hm)
  | solved hm => exact Or.inl (congrArg (fun x => [x]) hm)

end Closes

/-- The calls of the last attempt are none of an earlier one. -/
theorem Refuted.count_earlier [Memory] (h : Refuted p config timeline m before cs) {a b : Attempt}
    {more : List Consultation} {outcome : Outcome} (ha : Closes p config timeline m a more outcome)
    (hb : b ∈ before) : ((cs ++ more).map Consultation.makespan).count b.makespan =
      if b.verdict = .unsatisfiable then 1 else 0 := by
  have hlt := (h.lt_of_mem hb).2
  rw [List.map_append, List.count_append, h.count_makespan hb]
  rcases ha.map_makespan with hmore | ⟨hmore, _⟩
  · simp [hmore, Nat.ne_of_gt hlt]
  · simp [hmore]

/-- The last attempt has called the oracle once, unless it was cancelled. -/
theorem Refuted.count_last [Memory] (h : Refuted p config timeline m before cs) {a : Attempt}
    {more : List Consultation} {outcome : Outcome}
    (ha : Closes p config timeline m a more outcome) :
    ((cs ++ more).map Consultation.makespan).count a.makespan = 1 ∨
      ((cs ++ more).map Consultation.makespan).count a.makespan = 0 ∧ a.verdict = .cancelled := by
  rw [List.map_append, List.count_append, ha.makespan, h.count_eq_zero]
  rcases ha.map_makespan with hmore | ⟨hmore, hv⟩
  · simp [hmore]
  · simp [hmore, hv]

theorem Refuted.report_closed [Memory] (h : Refuted p config timeline m before cs) {a : Attempt}
    {more : List Consultation} {outcome : Outcome} (hm : m ≤ config.maxMakespan)
    (ha : Closes p config timeline m a more outcome) :
    Report p config timeline (before ++ [a]) (cs ++ more) outcome where
  consecutive := by
    rw [List.map_append, h.makespans, List.length_append, List.length_singleton,
      List.range'_concat, Nat.one_mul, h.length, List.map_singleton, ha.makespan]
  within := by
    intro b hb
    rcases List.mem_append.mp hb with hb | hb
    · exact h.makespan_le b hb
    · rw [List.mem_singleton.mp hb, ha.makespan]
      exact hm
  goesOn := by
    rw [List.dropLast_concat]
    exact h.goesOn
  solved := by simpa using ha.solved_iff
  aborted := by simpa using ha.aborted_iff
  exhausted := iff_of_false ha.ne_exhausted fun hall => ha.not_goesOn (hall a (by simp))
  whole := fun hexhausted => absurd hexhausted ha.ne_exhausted
  unreachable := by
    intro b hb agent hv
    rcases List.mem_append.mp hb with hb | hb
    · exact (h.cause hb).1 agent hv
    · rw [List.mem_singleton.mp hb] at hv
      exact absurd ha.not_goesOn (by simp [hv, Verdict.GoesOn])
  unsatisfiable := by
    intro b hb hv
    rcases List.mem_append.mp hb with hb | hb
    · obtain ⟨c, hc, hcause⟩ := (h.cause hb).2 hv
      exact ⟨c, List.mem_append_left _ hc, hcause⟩
    · rw [List.mem_singleton.mp hb] at hv
      exact absurd ha.not_goesOn (by simp [hv, Verdict.GoesOn])
  satisfiable := by
    intro m' s hs
    obtain ⟨c, hc, hcause⟩ := ha.exists_answered m' s hs
    exact ⟨c, List.mem_append_right _ hc, hcause⟩
  cancelled := by
    intro b hb hv
    rcases List.mem_append.mp hb with hb | hb
    · exact absurd (h.goesOn b hb) (by simp [hv, Verdict.GoesOn])
    · rw [List.mem_singleton.mp hb] at hv ⊢
      exact ha.setBy_of_cancelled hv
  once := by
    intro b hb hv
    rcases List.mem_append.mp hb with hb | hb
    · rw [h.count_earlier ha hb]
      rcases hv with hv | hv
      · exact if_pos hv
      · exact absurd (h.goesOn b hb) (by simp [hv, Verdict.GoesOn])
    · rw [List.mem_singleton.mp hb] at hv ⊢
      rcases h.count_last ha with hcount | ⟨_, hcancelled⟩
      · exact hcount
      · simp [hcancelled] at hv
  never := by
    intro b hb agent hv
    rcases List.mem_append.mp hb with hb | hb
    · rw [h.count_earlier ha hb, hv]
      rfl
    · rw [List.mem_singleton.mp hb] at hv
      exact absurd ha.not_goesOn (by simp [hv, Verdict.GoesOn])
  atMostOnce := by
    intro b hb _
    rcases List.mem_append.mp hb with hb | hb
    · rw [h.count_earlier ha hb]
      split <;> omega
    · rw [List.mem_singleton.mp hb]
      rcases h.count_last ha with hcount | ⟨hcount, _⟩ <;> omega
  sizes := by
    intro c hc
    rcases List.mem_append.mp hc with hc | hc
    · exact ⟨_, List.mem_append_left _ (h.exists_attempt hc), rfl, rfl, rfl⟩
    · refine ⟨a, by simp, ?_⟩
      rw [← ha.attempt_eq c hc]
      exact ⟨rfl, rfl, rfl⟩

/-- The search comes to a makespan whose table cannot be laid out, for want of what `misuse` says.
It breaks off there: that is no fault of a call, and there is no report. -/
def OutOfRoom [Memory] (p : Problem) (config : SearchConfig) (timeline : Timeline)
    (attempts : List Attempt) (misuse : Misuse) : Prop :=
  (∀ a ∈ attempts, a.verdict.GoesOn) ∧ ∃ m ≤ config.maxMakespan,
    m = config.minMakespan + attempts.length ∧
    KeyTable.lack? m p.agents.length p.graph.size = some misuse ∧
    ¬SetBy p config timeline (Moment.generating m).position

theorem Fails.eq [Memory] {c : Consultation} {e e' : SolveError} (h : Fails p config timeline c e)
    (h' : Fails p config timeline c e') : e = e' := by
  cases e with
  | oracle x =>
    cases e' with
    | oracle y =>
      cases h.symm.trans h'
      rfl
    | decode y =>
      obtain ⟨_, model, hanswer, _⟩ := h'
      cases h.symm.trans hanswer
  | decode x =>
    obtain ⟨_, model, hanswer, hdecode⟩ := h
    cases e' with
    | oracle y => cases hanswer.symm.trans h'
    | decode y =>
      obtain ⟨_, model', hanswer', hdecode'⟩ := h'
      cases hanswer.symm.trans hanswer'
      cases hdecode.symm.trans hdecode'
      rfl

theorem Refuted.not_fails [Memory] (h : Refuted p config timeline m before cs) {c : Consultation}
    (hc : c ∈ cs) (e : SolveError) : ¬Fails p config timeline c e := by
  intro hfails
  have hanswer := (h.made c hc).2
  cases e with
  | oracle x => cases hanswer.symm.trans hfails
  | decode x =>
    obtain ⟨_, model, hmodel, _⟩ := hfails
    cases hanswer.symm.trans hmodel

theorem Closes.not_fails [Memory] {a : Attempt} {more : List Consultation} {outcome : Outcome}
    (h : Closes p config timeline m a more outcome) {c : Consultation} (hc : c ∈ more)
    (e : SolveError) : ¬Fails p config timeline c e := by
  intro hfails
  cases h with
  | cancelled => cases hc
  | @overtaken c' answer hm _ hanswer hset =>
    rw [List.mem_singleton.mp hc] at hfails
    cases e with
    | oracle x => cases hanswer.symm.trans hfails
    | decode x => exact hfails.1 (hm ▸ hset)
  | @solved c' model schedule _ _ hanswer _ hdecode =>
    rw [List.mem_singleton.mp hc] at hfails
    cases e with
    | oracle x => cases hanswer.symm.trans hfails
    | decode x =>
      obtain ⟨_, model', hanswer', hdecode'⟩ := hfails
      cases hanswer.symm.trans hanswer'
      cases hdecode.symm.trans hdecode'

theorem Made.fits [Memory] {c : Consultation} (h : Made p config timeline c) :
    KeyTable.Fits c.makespan p.agents.length p.graph.size :=
  ((Encoding.build_eq_built_iff (prepared_windowsAt config c.makespan)).mp h.encoding).1

theorem Halts.made [Memory] {added : List Attempt} {more : List Consultation} {result : Result}
    (h : Halts p config timeline m added more result) : ∀ c ∈ more, Made p config timeline c := by
  intro c hc
  cases h with
  | exhausted => cases hc
  | closed _ ha =>
    cases ha with
    | cancelled => cases hc
    | overtaken _ hmade => exact List.mem_singleton.mp hc ▸ hmade
    | solved _ hmade => exact List.mem_singleton.mp hc ▸ hmade
  | failed _ _ hmade => exact List.mem_singleton.mp hc ▸ hmade
  | noRoom => cases hc

theorem Halts.error_iff [Memory] {added : List Attempt} {more : List Consultation} {result : Result}
    (h : Halts p config timeline m added more result) (hr : Refuted p config timeline m before cs)
    (e : SolveError) : result = .error e ↔ (∃ c ∈ cs ++ more, Fails p config timeline c e) ∨
      ∃ misuse, e = .decode (.misuse misuse) ∧
        OutOfRoom p config timeline (before ++ added) misuse := by
  have hlength := hr.length
  cases h with
  | exhausted hlast =>
    refine iff_of_false (by simp) ?_
    rintro (⟨c, hc, hfails⟩ | ⟨_, _, _, m', hm', hroom, _⟩)
    · exact hr.not_fails (by simpa using hc) e hfails
    · rw [List.append_nil] at hroom
      omega
  | @closed a _ _ _ ha =>
    refine iff_of_false (by simp) ?_
    rintro (⟨c, hc, hfails⟩ | ⟨_, _, hgoes, _⟩)
    · rcases List.mem_append.mp hc with hc | hc
      · exact hr.not_fails hc e hfails
      · exact ha.not_fails hc e hfails
    · exact ha.not_goesOn (hgoes a (by simp))
  | @failed c e' _ hm hmade hfails =>
    constructor
    · intro he
      cases he
      exact Or.inl ⟨c, by simp, hfails⟩
    · rintro (⟨c', hc', hfails'⟩ | ⟨misuse, _, _, m', _, hroom, hlack, _⟩)
      · rcases List.mem_append.mp hc' with hc' | hc'
        · exact absurd hfails' (hr.not_fails hc' e)
        · rw [List.mem_singleton.mp hc'] at hfails'
          rw [hfails.eq hfails']
      · rw [List.append_nil] at hroom
        have hm' : m' = c.makespan := by omega
        cases hmade.fits.lack?.symm.trans (hm' ▸ hlack)
  | noRoom hm hlack hclear =>
    constructor
    · intro he
      cases he
      rw [List.append_nil before]
      exact Or.inr ⟨_, rfl, hr.goesOn, m, hm, hlength.symm, hlack, hclear⟩
    · rintro (⟨c, hc, hfails⟩ | ⟨misuse, rfl, _, m', _, hroom, hlack', _⟩)
      · exact absurd hfails (hr.not_fails (by simpa using hc) e)
      · rw [List.append_nil] at hroom
        have hm' : m' = m := by omega
        cases hlack.symm.trans (hm' ▸ hlack')
        rfl

/-- Every run has its consultations: the calls that the oracle has got, about the formulas of their
makespans and with a clear token, and answered one after the other. If the run gives a report, that
matches them; it errs exactly if one of them fails, unless a table has no room. -/
theorem run_report [Memory] (p : Problem) (oracle : Oracle σ) (timeline : Timeline)
    (config : SearchConfig) (initial : σ) :
    ∃ cs, Heard oracle timeline initial cs (run p oracle timeline config initial).1 ∧
      (∀ c ∈ cs, Made p config timeline c) ∧
      (∀ outcome, (run p oracle timeline config initial).2 = .ok outcome →
        Report p config timeline (run p oracle timeline config initial).1.attempts.toList cs
          outcome) ∧
      ∀ e, (run p oracle timeline config initial).2 = .error e ↔
        (∃ c ∈ cs, Fails p config timeline c e) ∨ ∃ misuse, e = .decode (.misuse misuse) ∧
          OutOfRoom p config timeline (run p oracle timeline config initial).1.attempts.toList
            misuse := by
  have hstart : Linked p config oracle timeline initial config.minMakespan
      (4 * config.minMakespan) [] (State.start p config.pruning timeline initial) := .start
  obtain ⟨m, before, cs, added, more, hrefuted, hhalts, hattempts, hheard⟩ :=
    attempts_course .nil hstart
  unfold run
  rw [hattempts]
  refine ⟨cs ++ more, hheard, ?_, ?_, hhalts.error_iff hrefuted⟩
  · intro c hc
    rcases List.mem_append.mp hc with hc | hc
    · exact (hrefuted.made c hc).1
    · exact hhalts.made c hc
  · intro outcome houtcome
    rw [houtcome] at hhalts
    cases hhalts with
    | exhausted hlast =>
      rw [List.append_nil, List.append_nil]
      exact hrefuted.report_exhausted hlast
    | closed hm ha => exact hrefuted.report_closed hm ha

end AgentPaths.Search
