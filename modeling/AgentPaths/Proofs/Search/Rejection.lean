import AgentPaths.Proofs.Encoding.Windows
import AgentPaths.Proofs.Search.Report
import AgentPaths.Proofs.Search.Undisturbed

/-!
Makespans that are rejected. With windows there is no formula as long as an agent cannot arrive in
time, so a search begins to ask its oracle at the greatest distance that an agent has to go, and
before that it rejects every makespan by itself.
-/
namespace AgentPaths.Search

variable {σ : Type} {p : Problem} {config : SearchConfig} {oracle : Oracle σ} {timeline : Timeline}
  {m : Nat} {initial : σ} {before : List Attempt} {cs : List Consultation}

/-- An attempt that was rejected without a call of the oracle, or one that was not and has called
it. -/
inductive Judged [Memory] (p : Problem) (config : SearchConfig) (cs : List Consultation)
    (a : Attempt) : Prop
  | rejected {agent : Nat} : a.verdict = .unreachable agent →
      encodingAt p config a.makespan = .ok (.unreachable agent) → Judged p config cs a
  | consulted {c : Consultation} : (∀ agent, a.verdict ≠ .unreachable agent) → c ∈ cs →
      c.makespan = a.makespan → Judged p config cs a

theorem Judged.mono [Memory] {cs' : List Consultation} {a : Attempt} (h : Judged p config cs a)
    (hcs : cs ⊆ cs') : Judged p config cs' a := by
  cases h with
  | rejected hverdict hencoding => exact .rejected hverdict hencoding
  | consulted hverdict hc hm => exact .consulted hverdict (hcs hc) hm

theorem Refuted.judged [Memory] (h : Refuted p config timeline m before cs) :
    ∀ a ∈ before, Judged p config cs a := by
  induction h with
  | nil => simp
  | concat _ _ ha ih =>
    intro b hb
    rcases List.mem_append.mp hb with hb | hb
    · exact (ih b hb).mono (List.subset_append_left _ _)
    · rw [List.mem_singleton.mp hb]
      cases ha with
      | unreachable hencoding => exact .rejected rfl hencoding
      | unsatisfiable hm _ _ => exact .consulted (by simp [Consultation.attempt]) (by simp) rfl

theorem not_setBy_none [Memory] {k : Nat} : ¬SetBy p config none k := by
  rintro ⟨x, hx, _⟩
  cases hx

theorem Halts.judged [Memory] {added : List Attempt} {result : Result}
    (h : Halts p config none m added cs result) : ∀ a ∈ added, Judged p config cs a := by
  cases h with
  | exhausted => simp
  | failed => simp
  | noRoom => simp
  | closed _ ha =>
    intro b hb
    rw [List.mem_singleton.mp hb]
    cases ha with
    | cancelled hset => exact absurd hset not_setBy_none
    | overtaken _ _ _ hset => exact absurd hset not_setBy_none
    | solved => exact .consulted (by simp [Consultation.attempt]) (by simp) rfl

/-- Every attempt of a run that nothing interrupts is judged. -/
theorem run_judged [Memory] (p : Problem) (config : SearchConfig) (oracle : Oracle σ)
    (initial : σ) : ∃ cs, Heard oracle none initial cs (run p oracle none config initial).1 ∧
      (∀ c ∈ cs, Made p config none c) ∧
      ∀ a ∈ (run p oracle none config initial).1.attempts.toList, Judged p config cs a := by
  have hstart : Linked p config oracle none initial config.minMakespan
      (4 * config.minMakespan) [] (State.start p config.pruning none initial) := .start
  obtain ⟨m, before, cs, added, more, hrefuted, hhalts, hattempts, hheard⟩ :=
    attempts_course .nil hstart
  refine ⟨cs ++ more, hheard, ?_, ?_⟩
  · intro c hc
    rcases List.mem_append.mp hc with hc | hc
    · exact (hrefuted.made c hc).1
    · exact hhalts.made c hc
  · intro a ha
    unfold run at ha
    rw [hattempts] at ha
    rcases List.mem_append.mp ha with ha | ha
    · exact (hrefuted.judged a ha).mono (List.subset_append_left _ _)
    · exact (hhalts.judged a ha).mono (List.subset_append_right _ _)

theorem exists_windowsAt (hpruning : config.pruning = .reachability) (m : Nat) :
    ∃ ws, windowsAt p config m = some ws ∧ Encoding.WindowsPast p m ws := by
  refine ⟨_, ?_, Encoding.windowsFor_start.extend m⟩
  rw [windowsAt, hpruning]

theorem lt_farthest_of_unreachable [Memory] (hpruning : config.pruning = .reachability)
    {agent : Nat} (h : encodingAt p config m = .ok (.unreachable agent)) : m < p.farthest := by
  obtain ⟨ws, hws, hpast⟩ := exists_windowsAt (p := p) hpruning m
  rw [encodingAt, hws] at h
  exact Problem.lt_farthest_of_late (Encoding.build_eq_unreachable hpast h).1

theorem Made.farthest_le [Memory] {c : Consultation} (hpruning : config.pruning = .reachability)
    (h : Made p config timeline c) : p.farthest ≤ c.makespan := by
  obtain ⟨ws, hws, hpast⟩ := exists_windowsAt (p := p) hpruning c.makespan
  have hb := h.encoding
  rw [encodingAt, hws] at hb
  have hfits := ((Encoding.build_eq_built_iff hpast.prepared).mp hb).1
  have hall := (Encoding.exists_built_iff hpast.prepared hfits).mp ⟨_, hb⟩ (by simp)
  exact Problem.farthest_le_iff.mpr hall

/-- A judgement says on which side of the greatest distance the makespan lies. -/
theorem Judged.lt_farthest_iff [Memory] {a : Attempt} (h : Judged p config cs a)
    (hpruning : config.pruning = .reachability) (hmade : ∀ c ∈ cs, Made p config timeline c) :
    ((∃ agent, a.verdict = .unreachable agent) ↔ a.makespan < p.farthest) ∧
      (a.makespan ∉ cs.map Consultation.makespan ↔ a.makespan < p.farthest) := by
  have hcalled : a.makespan ∈ cs.map Consultation.makespan → p.farthest ≤ a.makespan := by
    intro hmem
    obtain ⟨c, hc, hm⟩ := List.mem_map.mp hmem
    exact hm ▸ (hmade c hc).farthest_le hpruning
  cases h with
  | rejected hverdict hencoding =>
    have hlt := lt_farthest_of_unreachable hpruning hencoding
    have hnot : a.makespan ∉ cs.map Consultation.makespan := fun hmem =>
      not_lt_of_ge (hcalled hmem) hlt
    exact ⟨iff_of_true ⟨_, hverdict⟩ hlt, iff_of_true hnot hlt⟩
  | consulted hverdict hc hm =>
    have hmem := List.mem_map.mpr ⟨_, hc, hm⟩
    have hge := not_lt_of_ge (hcalled hmem)
    exact ⟨iff_of_false (fun ⟨agent, hv⟩ => hverdict agent hv) hge,
      iff_of_false (not_not_intro hmem) hge⟩

/-- Where a table can be laid out, windows stop a formula exactly if an agent is late, and for the
first such agent; without windows there is always a formula. So a search with windows that nothing
interrupts rejects the attempts below the greatest distance that an agent has to go, and these are
the ones for which it does not call its oracle. -/
theorem rejection_exact [Memory] (p : Problem) :
    (∀ m ws, Encoding.WindowsPast p m ws → KeyTable.Fits m p.agents.length p.graph.size →
      (∀ a, Encoding.build p m (some ws) = .ok (.unreachable a) ↔ IsLeast (p.late m) a) ∧
      ((∃ f, Encoding.build p m (some ws) = .ok (.built f)) ↔
        ∀ a ∈ p.agents, a.InTime p.graph m)) ∧
    (∀ m, KeyTable.Fits m p.agents.length p.graph.size →
      ∃ f, Encoding.build p m none = .ok (.built f)) ∧
    (∀ m windows misuse, Encoding.Prepared p m windows →
      KeyTable.lack? m p.agents.length p.graph.size = some misuse →
      Encoding.build p m windows = .error misuse) ∧
    ∀ (σ : Type) (oracle : Oracle σ) (config : SearchConfig) (initial : σ),
      config.pruning = .reachability →
      ∃ cs, Heard oracle none initial cs (run p oracle none config initial).1 ∧
        (∀ c ∈ cs, Made p config none c) ∧
        ∀ a ∈ (run p oracle none config initial).1.attempts.toList,
          ((∃ agent, a.verdict = .unreachable agent) ↔ a.makespan < p.farthest) ∧
          (a.makespan ∉ cs.map Consultation.makespan ↔ a.makespan < p.farthest) := by
  refine ⟨?_, ?_, fun m windows misuse h => Encoding.build_of_lack h, ?_⟩
  · intro m ws h hfits
    refine ⟨fun a => Encoding.build_eq_unreachable_iff h hfits, ?_⟩
    simpa using Encoding.exists_built_iff h.prepared hfits
  · intro m hfits
    exact (Encoding.exists_built_iff Encoding.prepared_none hfits).mpr fun h => absurd rfl h
  · intro σ oracle config initial hpruning
    obtain ⟨cs, hheard, hmade, hjudged⟩ := run_judged p config oracle initial
    exact ⟨cs, hheard, hmade, fun a ha => (hjudged a ha).lt_farthest_iff hpruning hmade⟩

section

attribute [local instance] Memory.ample

/-- Two steps are too few for the second agent of the relay. -/
theorem attempts_relay :
    (run Encoding.relay Oracle.exhaustive none ⟨2, 2, .reachability⟩ ()).1.attempts =
      #[⟨2, 0, 0, .unreachable 1⟩] := by
  have hattempt : ∃ s, attempt Encoding.relay Oracle.exhaustive none 2
      (State.start Encoding.relay .reachability none ()) = (s, none) ∧
      s.attempts = #[⟨2, 0, 0, .unreachable 1⟩] := ⟨_, rfl, rfl⟩
  obtain ⟨s, hs, hattempts⟩ := hattempt
  rw [run, attempts, if_pos (Nat.le_refl 2), hs]
  dsimp only
  rw [attempts, if_neg (by decide)]
  exact hattempts

/-- In three steps both agents of the relay could arrive, if they were not in each other's way. -/
theorem rejection_exact_relay :
    Encoding.WindowsPast Encoding.relay 2 Encoding.relayWindows ∧ KeyTable.Fits 2 2 4 ∧
    Encoding.build Encoding.relay 2 (some Encoding.relayWindows) = .ok (.unreachable 1) ∧
    IsLeast (Encoding.relay.late 2) 1 ∧
    Encoding.WindowsPast Encoding.relay 3 Encoding.relayWindows ∧ KeyTable.Fits 3 2 4 ∧
    (∃ f, Encoding.build Encoding.relay 3 (some Encoding.relayWindows) = .ok (.built f)) ∧
    (∀ a ∈ Encoding.relay.agents, a.InTime Encoding.relay.graph 3) ∧
    (∃ f, Encoding.build Encoding.relay 2 none = .ok (.built f)) ∧
    KeyTable.lack? (addressBound - 1) 2 4 = some .tooLarge ∧
    Encoding.build Encoding.relay (addressBound - 1) none = .error .tooLarge ∧
    ⟨2, 0, 0, .unreachable 1⟩ ∈ (run Encoding.relay Oracle.exhaustive none
      ⟨2, 2, .reachability⟩ ()).1.attempts.toList ∧
    ((2 : Nat) : ℕ∞) < Encoding.relay.farthest := by
  obtain ⟨hwindows, hplain, hlarge, hrun⟩ := rejection_exact Encoding.relay
  have hthree := Encoding.windowsPast_relay
  have htwo : Encoding.WindowsPast Encoding.relay 2 Encoding.relayWindows :=
    ⟨hthree.toWindowsFor, by decide⟩
  have hfits : KeyTable.Fits 3 2 4 := by decide
  have hrejected : Encoding.build Encoding.relay 2 (some Encoding.relayWindows) =
      .ok (.unreachable 1) := by rfl
  have hbuilt : ∃ f, Encoding.build Encoding.relay 3 (some Encoding.relayWindows) =
      .ok (.built f) := ⟨_, rfl⟩
  have hattempt : ⟨2, 0, 0, .unreachable 1⟩ ∈ (run Encoding.relay Oracle.exhaustive none
      ⟨2, 2, .reachability⟩ ()).1.attempts.toList := by
    rw [attempts_relay]
    exact List.mem_singleton_self _
  obtain ⟨cs, _, _, hjudged⟩ := hrun Unit Oracle.exhaustive ⟨2, 2, .reachability⟩ () rfl
  have hlate := ((hwindows 2 _ htwo (by decide)).1 1).mp hrejected
  exact ⟨htwo, hfits.mono (by decide), hrejected, hlate, hthree, hfits, hbuilt,
    (hwindows 3 _ hthree hfits).2.mp hbuilt, hplain 2 (by decide), by decide,
    hlarge _ none _ Encoding.prepared_none (by decide), hattempt,
    (hjudged _ hattempt).1.mp ⟨1, rfl⟩⟩

/-- Nobody is late where nobody travels, yet there is no formula for so many steps, neither with the
windows of all agents nor without. -/
theorem not_built_deserted :
    Encoding.WindowsPast Encoding.deserted (addressBound - 1) [] ∧
    (∀ a ∈ Encoding.deserted.agents, a.InTime Encoding.deserted.graph (addressBound - 1)) ∧
    (¬∃ f, Encoding.build Encoding.deserted (addressBound - 1) (some []) = .ok (.built f)) ∧
    ¬∃ f, Encoding.build Encoding.deserted (addressBound - 1) none = .ok (.built f) := by
  have hlack : KeyTable.lack? (addressBound - 1) 0 0 = some .tooLarge := by decide
  have hpast : Encoding.WindowsPast Encoding.deserted (addressBound - 1) [] :=
    ⟨⟨rfl, fun i a w ha => by cases ha⟩, fun w hw => by cases hw⟩
  refine ⟨hpast, fun a ha => (by cases ha), ?_, ?_⟩
  · intro hbuilt
    obtain ⟨f, hf⟩ := hbuilt
    cases (Encoding.build_of_lack hpast.prepared hlack).symm.trans hf
  · intro hbuilt
    obtain ⟨f, hf⟩ := hbuilt
    cases (Encoding.build_of_lack Encoding.prepared_none hlack).symm.trans hf

end

end AgentPaths.Search
