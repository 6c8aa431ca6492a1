import AgentPaths.Proofs.Search.Correctness
import AgentPaths.Proofs.Search.Course

/-!
Runs during which the token stays clear. They are runs without any cancellation, and their results
are settled by what the tables and the oracle can handle: a run ends with the first makespan that
has a solution, unless it breaks off before.
-/
namespace AgentPaths

namespace Search

variable {σ : Type} {p : Problem} {config : SearchConfig} {oracle : Oracle σ} {timeline : Timeline}
  {m : Nat} {initial : σ} {cs : List Consultation} {s : State p.graph σ} {R : Nat → Prop}

namespace State

theorem reach_eq_of_clear {g : Graph} {s : State g σ} {x : Moment}
    (h : (s.reach timeline x).cancelled = false) : s.reach timeline x = s.reach none x := by
  have htimeline := (Bool.or_eq_false_iff.mp h).2
  unfold reach
  rw [htimeline]
  rfl

theorem consult_eq_of_clear {g : Graph} {s : State g σ} {call : Call}
    (h : (s.consult oracle timeline m call).2.cancelled = false) :
    s.consult oracle timeline m call = s.consult oracle none m call := by
  have hcall : timeline.duringCall m = false := (Bool.or_eq_false_iff.mp h).2
  have hpoll : timeline.poll m = Timeline.poll none m :=
    funext fun look => Timeline.poll_eq_false hcall look
  unfold consult
  rw [hcall, hpoll]
  rfl

end State

/-- An attempt that has seen the token set ends with the token set. -/
theorem not_cancelled_of_abort {n k : Nat} (h : (abort p s m n k).1.cancelled = false) :
    ¬s.cancelled = true := Bool.eq_false_iff.mp h

theorem solveFormula_eq_of_clear [Memory] {f : Formula}
    (h : (solveFormula p oracle timeline m f s).1.cancelled = false) :
    solveFormula p oracle timeline m f s = solveFormula p oracle none m f s := by
  unfold solveFormula at h ⊢
  dsimp only at h ⊢
  split at h
  next hset => exact absurd hset (not_cancelled_of_abort h)
  next hclear =>
    have hreach := State.reach_eq_of_clear (Bool.eq_false_iff.mpr hclear)
    rw [hreach] at h hclear ⊢
    have hcall : ((s.reach none (.solving m)).consult oracle timeline m
        ⟨f.varCount, f.clauses.toList⟩).2.cancelled = false := by
      generalize (s.reach none (.solving m)).consult oracle timeline m
        ⟨f.varCount, f.clauses.toList⟩ = reply at h
      obtain ⟨answer, s₂⟩ := reply
      cases answer with
      | error e => exact h
      | ok answer =>
        dsimp only at h
        split at h
        next hset => exact absurd hset (not_cancelled_of_abort h)
        next hclear₂ => exact Bool.eq_false_iff.mpr hclear₂
    rw [if_neg hclear, if_neg hclear, State.consult_eq_of_clear hcall]

theorem attempt_eq_of_clear [Memory] (h : (attempt p oracle timeline m s).1.cancelled = false) :
    attempt p oracle timeline m s = attempt p oracle none m s := by
  unfold attempt at h ⊢
  dsimp only at h ⊢
  split at h
  next hset => exact absurd hset (not_cancelled_of_abort h)
  next hclear =>
    have hreach := State.reach_eq_of_clear (Bool.eq_false_iff.mpr hclear)
    rw [hreach] at h hclear ⊢
    rw [if_neg hclear, if_neg hclear]
    split at h
    next hset => exact absurd hset (not_cancelled_of_abort h)
    next hclear₂ =>
      have hreach₂ := State.reach_eq_of_clear (Bool.eq_false_iff.mpr hclear₂)
      rw [hreach₂] at h hclear₂ ⊢
      rw [if_neg hclear₂, if_neg hclear₂]
      split at h
      next => rfl
      next => rfl
      next => exact solveFormula_eq_of_clear h

theorem attempts_of_cancelled [Memory] {last : Nat} (h : s.cancelled = true) :
    (attempts p oracle timeline last m s).1.cancelled = true := by
  rw [attempts]
  split
  next =>
    have hset : (s.reach timeline (.attempt m)).cancelled = true := by
      simp [State.reach, h]
    have habort : attempt p oracle timeline m s =
        abort p (s.reach timeline (.attempt m)) m 0 0 := if_pos hset
    rw [habort]
    exact hset
  next => exact h

theorem attempts_eq_of_clear [Memory] {last : Nat}
    (h : (attempts p oracle timeline last m s).1.cancelled = false) :
    attempts p oracle timeline last m s = attempts p oracle none last m s := by
  fun_induction attempts p oracle timeline last m s with
  | case1 m s hm s' result hattempt =>
    have hclear : attempt p oracle timeline m s = attempt p oracle none m s :=
      attempt_eq_of_clear (by rw [hattempt]; exact h)
    rw [attempts, if_pos hm, ← hclear, hattempt]
  | case2 m s hm s' hattempt ih =>
    have hs' : s'.cancelled = false := by
      cases hset : s'.cancelled with
      | false => rfl
      | true => exact (attempts_of_cancelled hset).symm.trans h
    have hclear : attempt p oracle timeline m s = attempt p oracle none m s :=
      attempt_eq_of_clear (by rw [hattempt]; exact hs')
    rw [attempts.eq_def p oracle none last m s, if_pos hm, ← hclear, hattempt]
    exact ih h
  | case3 m s hm => rw [attempts, if_neg hm]

/-- A run that ends with a clear token has not noticed when the token would have become set. -/
theorem run_eq_of_clear [Memory] (h : (run p oracle timeline config initial).1.cancelled = false) :
    run p oracle timeline config initial = run p oracle none config initial := by
  have houtset : (timeline == some .outset) = false := by
    cases hset : timeline == some Moment.outset with
    | false => rfl
    | true => exact (attempts_of_cancelled (s := State.start p _ timeline _) hset).symm.trans h
  have hstart : State.start p config.pruning timeline initial =
      State.start p config.pruning none initial := by
    unfold State.start
    rw [houtset]
    rfl
  unfold run at h ⊢
  rw [attempts_eq_of_clear h, hstart]

/-- What an oracle makes of the formulas of a search: it decides those of the makespans in `R`, and
it declines the others that are made at all. -/
structure Handles [Memory] (p : Problem) (config : SearchConfig) (oracle : Oracle σ)
    (R : Nat → Prop) : Prop where
  fits : ∀ m, R m → KeyTable.Fits m p.agents.length p.graph.size
  decides : ∀ m f, R m → encodingAt p config m = .ok (.built f) →
    oracle.Decides f.varCount f.clauses.toList
  declines : ∀ m, ¬R m → KeyTable.Fits m p.agents.length p.graph.size →
    ∃ f, encodingAt p config m = .ok (.built f) ∧ oracle.Declines f.varCount f.clauses.toList

/-- How a search breaks off at makespan `m`: without a table, or with a formula that the oracle
declines. -/
inductive Breaks [Memory] (p : Problem) (m : Nat) : SolveError → Prop
  | table {misuse : Misuse} : KeyTable.lack? m p.agents.length p.graph.size = some misuse →
      Breaks p m (.decode (.misuse misuse))
  | clauses : KeyTable.Fits m p.agents.length p.graph.size →
      Breaks p m (.oracle (.misuse .tooLarge))

/-- How an attempt at makespan `m` ends that nothing interrupts. -/
inductive Decided [Memory] (p : Problem) (R : Nat → Prop) (m : Nat) : Option Result → Prop
  | refuted : R m → ¬Feasible p m → Decided p R m none
  | solved {s : Schedule} : R m → IsSolution p m s → Decided p R m (some (.ok (.solved m s)))
  | broken {e : SolveError} : ¬R m → Breaks p m e → Decided p R m (some (.error e))

theorem Ends.decided [Memory] {result : Option Result} (h : Ends p none m result) (hm : R m) :
    Decided p R m result := by
  cases h with
  | refuted hnot => exact .refuted hm hnot
  | solved hlength hs => exact .solved hm ((Schedule.violations_eq_nil_iff hlength).mp hs)
  | aborted hset => exact absurd rfl hset

theorem State.reach_none (s : State p.graph σ) (x : Moment) : s.reach none x = s := by
  unfold reach
  rw [show ((none : Timeline) == some x) = false from rfl, Bool.or_false]

namespace Linked

theorem clear [Memory] {k : Nat} (h : Linked p config oracle none initial m k cs s) :
    s.cancelled = false := by
  apply Bool.eq_false_iff.mpr
  intro hset
  obtain ⟨x, hx, _⟩ := h.token.mp hset
  cases hx

theorem sound [Memory] {k : Nat} (h : Linked p config oracle none initial m k cs s) :
    (s.extend m).Sound p none := by
  constructor
  · intro ws hws
    rw [h.windows m (Nat.le_refl m)] at hws
    exact (prepared_windowsAt config m ws hws).toWindowsFor
  · intro hset
    exact absurd hset (Bool.eq_false_iff.mp h.clear)

theorem attempt_eq [Memory] {k : Nat} (h : Linked p config oracle none initial m k cs s) :
    attempt p oracle none m s = match encodingAt p config m with
      | .error misuse => (s.extend m, some (.error (.decode (.misuse misuse))))
      | .ok (.unreachable a) => ((s.extend m).record ⟨m, 0, 0, .unreachable a⟩, none)
      | .ok (.built f) => solveFormula p oracle none m f (s.extend m) := by
  have hclear : ¬s.cancelled = true := Bool.eq_false_iff.mp h.clear
  have hclear' : ¬(s.extend m).cancelled = true := hclear
  unfold attempt
  simp only [State.reach_none, if_neg hclear, if_neg hclear', h.windows m (Nat.le_refl m)]
  rfl

end Linked

theorem solveFormula_of_declines [Memory] {f : Formula} (hclear : s.cancelled = false)
    (hdeclines : oracle.Declines f.varCount f.clauses.toList) :
    (solveFormula p oracle none m f s).2 = some (.error (.oracle (.misuse .tooLarge))) := by
  have hanswer : (s.consult oracle none m ⟨f.varCount, f.clauses.toList⟩).1 =
      .error (.misuse .tooLarge) := hdeclines s.oracle
  unfold solveFormula
  simp only [State.reach_none, hclear, hanswer]
  rfl

/-- Without interruptions an attempt succeeds exactly if its makespan can be handled. -/
theorem attempt_decided [Memory] (hhandles : Handles p config oracle R)
    (h : Linked p config oracle none initial m (4 * m) cs s) :
    Decided p R m (attempt p oracle none m s).2 := by
  rw [h.attempt_eq]
  by_cases hm : R m
  · have hfits := hhandles.fits m hm
    have hw := prepared_windowsAt (p := p) config m
    obtain ⟨encoding, hb⟩ := Encoding.exists_build hw hfits
    rw [encodingAt, hb]
    cases encoding with
    | unreachable a => exact .refuted hm (not_feasible_of_unreachable hw hfits hb)
    | built f =>
      have hends := solveFormula_ends h.sound hw hb (hhandles.decides m f hm hb)
      exact hends.2.decided hm
  · by_cases hfits : KeyTable.Fits m p.agents.length p.graph.size
    · obtain ⟨f, hf, hdeclines⟩ := hhandles.declines m hm hfits
      rw [hf]
      dsimp only
      rw [solveFormula_of_declines (s := s.extend m) h.clear hdeclines]
      exact .broken hm (.clauses hfits)
    · obtain ⟨misuse, hlack⟩ := KeyTable.exists_lack?_of_not_fits hfits
      rw [encodingAt, Encoding.build_of_lack (prepared_windowsAt config m) hlack]
      exact .broken hm (.table hlack)

/-- How a search from `first` to `last` ends that nothing interrupts: with the first makespan that
has a solution, with none, or with the first makespan that cannot be handled. -/
inductive Settled [Memory] (p : Problem) (R : Nat → Prop) (first last : Nat) : Result → Prop
  | solved {m : Nat} {s : Schedule} : first ≤ m → m ≤ last → R m → IsSolution p m s →
      (∀ j, first ≤ j → j < m → R j ∧ ¬Feasible p j) → Settled p R first last (.ok (.solved m s))
  | exhausted : (∀ j, first ≤ j → j ≤ last → R j ∧ ¬Feasible p j) →
      Settled p R first last (.ok .exhausted)
  | broken {m : Nat} {e : SolveError} : first ≤ m → m ≤ last → ¬R m → Breaks p m e →
      (∀ j, first ≤ j → j < m → R j ∧ ¬Feasible p j) → Settled p R first last (.error e)

theorem attempts_settled [Memory] (hhandles : Handles p config oracle R)
    (h : Linked p config oracle none initial m (4 * m) cs s) (hfirst : config.minMakespan ≤ m)
    (hbefore : ∀ j, config.minMakespan ≤ j → j < m → R j ∧ ¬Feasible p j) :
    Settled p R config.minMakespan config.maxMakespan
      (attempts p oracle none config.maxMakespan m s).2 := by
  fun_induction attempts p oracle none config.maxMakespan m s generalizing cs with
  | case1 m s hm s' result hattempt =>
    have hdecided := attempt_decided hhandles h
    rw [hattempt] at hdecided
    cases hdecided with
    | solved hR hs => exact .solved hfirst hm hR hs hbefore
    | broken hR hbreaks => exact .broken hfirst hm hR hbreaks hbefore
  | case2 m s hm s' hattempt ih =>
    have hdecided := attempt_decided hhandles h
    have hleads := attempt_leads hfirst hm h
    rw [hattempt] at hdecided hleads
    obtain ⟨_, _, _, _, h'⟩ := hleads
    cases hdecided with
    | refuted hR hnot =>
      refine ih h' (Nat.le_succ_of_le hfirst) fun j hj hlt => ?_
      rcases Nat.lt_or_eq_of_le (Nat.le_of_lt_succ hlt) with hlt | rfl
      · exact hbefore j hj hlt
      · exact ⟨hR, hnot⟩
  | case3 m s hm => exact .exhausted fun j hj hlast => hbefore j hj (by omega)

/-- A run that nothing interrupts ends with the first makespan of its range that has a solution or
cannot be handled, or with neither. -/
theorem run_settled [Memory] (hhandles : Handles p config oracle R) (initial : σ) :
    Settled p R config.minMakespan config.maxMakespan (run p oracle none config initial).2 :=
  attempts_settled hhandles Linked.start (Nat.le_refl _) fun j hj hlt => by omega

/-- A search from `first` to `last` comes to a makespan for whose table there is no memory. -/
def RunsOut [Memory] (p : Problem) (R : Nat → Prop) (first last : Nat) : Prop :=
  ∃ m, first ≤ m ∧ m ≤ last ∧ KeyTable.lack? m p.agents.length p.graph.size = some .outOfMemory ∧
    ∀ j, first ≤ j → j < m → R j ∧ ¬Feasible p j

namespace Settled

variable {first last : Nat} {result : Result}

/-- A search without a schedule has missed none that it could have come to. -/
theorem not_feasible [Memory] (h : Settled p R first last result)
    (hunsolved : ∀ m s, result ≠ .ok (.solved m s)) (hfirst : first ≤ m) (hlast : m ≤ last)
    (hall : ∀ j, first ≤ j → j ≤ m → R j) : ¬Feasible p m := by
  cases h with
  | solved => exact absurd rfl (hunsolved _ _)
  | exhausted hnone => exact (hnone m hfirst hlast).2
  | @broken k _ hk _ hnot _ hbefore =>
    have hlt : m < k := Nat.lt_of_not_le fun hle => hnot (hall k hk hle)
    exact (hbefore m hfirst hlt).2

/-- Memory runs out exactly in those searches that break off for want of it. -/
theorem runsOut_iff [Memory] (hfits : ∀ m, R m → KeyTable.Fits m p.agents.length p.graph.size)
    (h : Settled p R first last result) :
    RunsOut p R first last ↔ result = .error (.decode (.misuse .outOfMemory)) := by
  have hnot {k : Nat} {misuse : Misuse} (hR : R k)
      (hlack : KeyTable.lack? k p.agents.length p.graph.size = some misuse) : False := by
    cases (hfits k hR).lack?.symm.trans hlack
  constructor
  · intro hout
    obtain ⟨k, hk, hklast, hlack, hbeforek⟩ := hout
    cases h with
    | @solved m s hm _ hR hs hbefore =>
      rcases Nat.lt_trichotomy m k with hlt | rfl | hlt
      · exact absurd (feasible_iff.mpr ⟨s, hs⟩) (hbeforek m hm hlt).2
      · exact (hnot hR hlack).elim
      · exact (hnot (hbefore k hk hlt).1 hlack).elim
    | exhausted hnone => exact (hnot (hnone k hk hklast).1 hlack).elim
    | @broken m e hm _ hnotm hbreaks hbefore =>
      rcases Nat.lt_trichotomy m k with hlt | rfl | hlt
      · exact absurd (hbeforek m hm hlt).1 hnotm
      · cases hbreaks with
        | table hlack' =>
          cases hlack.symm.trans hlack'
          rfl
        | clauses hroom => cases hroom.lack?.symm.trans hlack
      · exact (hnot (hbefore k hk hlt).1 hlack).elim
  · intro he
    cases h with
    | solved => cases he
    | exhausted => cases he
    | @broken m e hm hmlast _ hbreaks hbefore =>
      cases hbreaks with
      | table hlack =>
        cases he
        exact ⟨m, hm, hmlast, hlack, hbefore⟩
      | clauses => cases he

end Settled

end Search

end AgentPaths
