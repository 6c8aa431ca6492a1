import AgentPaths.Proofs.Encoding.Models
import AgentPaths.Proofs.Sat.Contract
import AgentPaths.Search

/-!
What a search may conclude. An attempt that goes on has refuted its makespan, one that solves it has
a schedule the checker accepts, and one that aborts has seen the token set; so a run that keeps on
from a makespan has refuted all those before it. Windows serve one attempt after the other because
they only ever tick on.
-/
namespace AgentPaths

namespace Timeline

theorem poll_lasting (timeline : Timeline) (m : Nat) : (timeline.poll m).Lasting := by
  intro i j hij hi
  unfold poll at hi ⊢
  split at hi
  next m' looks =>
    rw [Bool.and_eq_true, decide_eq_true_eq, decide_eq_true_eq] at hi ⊢
    exact ⟨hi.1, by omega⟩
  next => cases hi

/-- A call during which the token does not become set sees it clear. -/
theorem poll_eq_false {timeline : Timeline} {m : Nat} (h : timeline.duringCall m = false)
    (look : Nat) : timeline.poll m look = false := by
  unfold duringCall at h
  unfold poll
  split
  next m' looks => simp_all
  next => rfl

end Timeline

/-- Some schedule of `m` steps has no violations. -/
def Feasible (p : Problem) (m : Nat) : Prop :=
  ∃ s : Schedule, (∀ path ∈ s.paths, path.length = m + 1) ∧ Schedule.violations p s = []

theorem feasible_iff {p : Problem} {m : Nat} : Feasible p m ↔ ∃ s, IsSolution p m s := by
  constructor
  · intro h
    obtain ⟨s, hlength, hs⟩ := h
    exact ⟨s, (Schedule.violations_eq_nil_iff hlength).mp hs⟩
  · intro h
    obtain ⟨s, hs⟩ := h
    exact ⟨s, hs.length, hs.violations_eq_nil⟩

/-- What an outcome of a search from `first` to `last` says is true. -/
def Outcome.Correct (p : Problem) (timeline : Timeline) (first last : Nat) : Outcome → Prop
  | .solved m s => first ≤ m ∧ m ≤ last ∧ Schedule.violations p s = [] ∧
      (∀ path ∈ s.paths, path.length = m + 1) ∧ ∀ m', first ≤ m' → m' < m → ¬Feasible p m'
  | .aborted m => first ≤ m ∧ m ≤ last ∧ timeline ≠ none
  | .exhausted => ∀ m', first ≤ m' → m' ≤ last → ¬Feasible p m'

namespace Search

variable {σ : Type} {p : Problem} {oracle : Oracle σ} {timeline : Timeline} {m : Nat}

namespace State

/-- What every state of a run satisfies: the windows are those of the agents, and the token is only
set if it ever becomes so. -/
structure Sound (p : Problem) (timeline : Timeline) (s : State p.graph σ) : Prop where
  windows : ∀ ws, s.windows = some ws → Encoding.WindowsFor p ws
  cancelled : s.cancelled = true → timeline ≠ none

variable {s : State p.graph σ}

theorem sound_start (p : Problem) (pruning : Pruning) (timeline : Timeline) (initial : σ) :
    (start p pruning timeline initial).Sound p timeline := by
  constructor
  · intro ws hws
    cases pruning with
    | reachability => exact Option.some.inj hws ▸ Encoding.windowsFor_start
    | disabled => cases hws
  · intro hset hnone
    unfold start at hset
    rw [hnone] at hset
    cases hset

theorem Sound.reach (h : s.Sound p timeline) (x : Moment) :
    (s.reach timeline x).Sound p timeline := by
  constructor
  · exact h.windows
  · intro hset hnone
    rcases Bool.or_eq_true_iff.mp hset with hset | hset
    · exact h.cancelled hset hnone
    · rw [hnone] at hset
      cases hset

theorem Sound.extend (h : s.Sound p timeline) (m : Nat) : (s.extend m).Sound p timeline := by
  constructor
  · intro ws' hws'
    obtain ⟨ws, hws, rfl⟩ := Option.map_eq_some_iff.mp hws'
    exact ((h.windows ws hws).extend m).toWindowsFor
  · exact h.cancelled

theorem Sound.record (h : s.Sound p timeline) (a : Attempt) : (s.record a).Sound p timeline :=
  ⟨h.windows, h.cancelled⟩

/-- A call of an oracle has an answer, which is right if the token is still clear after the call. -/
theorem Sound.consult (h : s.Sound p timeline) (call : Call)
    (hdecides : oracle.Decides call.varCount call.clauses) (m : Nat) :
    ∃ answer s', s.consult oracle timeline m call = (.ok answer, s') ∧ s'.Sound p timeline ∧
      (s'.cancelled = false → answer.Right call.varCount call.clauses) := by
  obtain ⟨answer, hanswer, hright⟩ := hdecides s.oracle (timeline.poll m) (timeline.poll_lasting m)
  refine ⟨answer, (s.consult oracle timeline m call).2, ?_, ⟨h.windows, ?_⟩, ?_⟩
  · rw [← hanswer]
    rfl
  · intro hset hnone
    rcases Bool.or_eq_true_iff.mp hset with hset | hset
    · exact h.cancelled hset hnone
    · rw [hnone] at hset
      cases hset
  · intro hclear
    apply hright
    exact Timeline.poll_eq_false (Bool.or_eq_false_iff.mp hclear).2

end State

/-- How an attempt at makespan `m` may end. -/
inductive Ends (p : Problem) (timeline : Timeline) (m : Nat) : Option Result → Prop
  | refuted : ¬Feasible p m → Ends p timeline m none
  | solved {s : Schedule} : (∀ path ∈ s.paths, path.length = m + 1) →
      Schedule.violations p s = [] → Ends p timeline m (some (.ok (.solved m s)))
  | aborted : timeline ≠ none → Ends p timeline m (some (.ok (.aborted m)))

variable {windows : Option (List (Window p.graph))} {f : Formula} {s : State p.graph σ}

theorem not_feasible_of_unreachable [Memory] (hw : Encoding.Prepared p m windows)
    (hfits : KeyTable.Fits m p.agents.length p.graph.size) {a : Nat}
    (hb : Encoding.build p m windows = .ok (.unreachable a)) : ¬Feasible p m := by
  intro h
  obtain ⟨s, hs⟩ := feasible_iff.mp h
  obtain ⟨f, _, hbuilt, _⟩ := Encoding.exists_model_of_solution hw hfits hs
  cases hb.symm.trans hbuilt

theorem not_feasible_of_unsatisfiable [Memory] (hw : Encoding.Prepared p m windows)
    (hb : Encoding.build p m windows = .ok (.built f))
    (hright : Answer.unsatisfiable.Right f.varCount f.clauses.toList) : ¬Feasible p m := by
  intro h
  obtain ⟨s, hs⟩ := feasible_iff.mp h
  have hfits := ((Encoding.build_eq_built_iff hw).mp hb).1
  obtain ⟨f', values, hb', hsize, hsat, _⟩ := Encoding.exists_model_of_solution hw hfits hs
  cases hb.symm.trans hb'
  exact hright values hsize hsat

theorem solveFormula_ends [Memory] (hs : s.Sound p timeline) (hw : Encoding.Prepared p m windows)
    (hb : Encoding.build p m windows = .ok (.built f))
    (hdecides : oracle.Decides f.varCount f.clauses.toList) :
    (solveFormula p oracle timeline m f s).1.Sound p timeline ∧
      Ends p timeline m (solveFormula p oracle timeline m f s).2 := by
  have hs₁ := hs.reach (.solving m)
  unfold solveFormula
  dsimp only
  split
  next hset => exact ⟨hs₁.record _, .aborted (hs₁.cancelled hset)⟩
  next hclear =>
    obtain ⟨answer, s₂, hcall, hs₂, hright⟩ :=
      hs₁.consult ⟨f.varCount, f.clauses.toList⟩ hdecides m
    rw [hcall]
    dsimp only
    split
    next hset => exact ⟨hs₂.record _, .aborted (hs₂.cancelled hset)⟩
    next hclear₂ =>
      -- only now is the answer known to be right
      have hright := hright (Bool.eq_false_iff.mpr hclear₂)
      cases answer with
      | unsatisfiable => exact ⟨hs₂.record _, .refuted (not_feasible_of_unsatisfiable hw hb hright)⟩
      | satisfiable model =>
        obtain ⟨hsize, hsat⟩ := hright
        obtain ⟨schedule, hdecode, hsolution⟩ :=
          Encoding.exists_solution_of_model hw hb (Nat.le_of_eq hsize.symm) hsat
        simp only [hdecode]
        exact ⟨hs₂.record _, .solved hsolution.length hsolution.violations_eq_nil⟩

/-- An attempt keeps the state sound, and ends in one of the ways it may. -/
theorem attempt_ends [Memory] (hs : s.Sound p timeline)
    (hfits : KeyTable.Fits m p.agents.length p.graph.size)
    (hdecides : ∀ windows f, Encoding.Prepared p m windows →
      Encoding.build p m windows = .ok (.built f) → oracle.Decides f.varCount f.clauses.toList) :
    (attempt p oracle timeline m s).1.Sound p timeline ∧
      Ends p timeline m (attempt p oracle timeline m s).2 := by
  have hs₁ := hs.reach (.attempt m)
  have hs₂ := (hs₁.reach (.generating m)).extend m
  have hw : Encoding.Prepared p m
      (((s.reach timeline (.attempt m)).reach timeline (.generating m)).extend m).windows :=
    Encoding.prepared_extend hs.windows m
  unfold attempt
  dsimp only
  split
  next hset => exact ⟨hs₁.record _, .aborted (hs₁.cancelled hset)⟩
  next =>
    split
    next hset => exact ⟨hs₂.record _, .aborted (hs₂.cancelled hset)⟩
    next =>
      obtain ⟨encoding, hb⟩ := Encoding.exists_build hw hfits
      rw [hb]
      cases encoding with
      | unreachable a => exact ⟨hs₂.record _, .refuted (not_feasible_of_unreachable hw hfits hb)⟩
      | built f => exact solveFormula_ends hs₂ hw hb (hdecides _ f hw hb)

/-- A run of attempts that has refuted the makespans before `m` is correct from `first` on. -/
theorem attempts_correct [Memory] {first last : Nat} (hs : s.Sound p timeline)
    (hfits : ∀ m, first ≤ m → m ≤ last → KeyTable.Fits m p.agents.length p.graph.size)
    (hdecides : ∀ m windows f, first ≤ m → m ≤ last → Encoding.Prepared p m windows →
      Encoding.build p m windows = .ok (.built f) → oracle.Decides f.varCount f.clauses.toList)
    (hfirst : first ≤ m) (hbefore : ∀ m', first ≤ m' → m' < m → ¬Feasible p m') :
    ∃ outcome, (attempts p oracle timeline last m s).2 = .ok outcome ∧
      outcome.Correct p timeline first last := by
  fun_induction attempts p oracle timeline last m s with
  | case1 m s hm s' result hattempt =>
    have hends := attempt_ends hs (hfits m hfirst hm) fun ws f => hdecides m ws f hfirst hm
    rw [hattempt] at hends
    cases hends.2 with
    | solved hlength hviolations => exact ⟨_, rfl, hfirst, hm, hviolations, hlength, hbefore⟩
    | aborted hset => exact ⟨_, rfl, hfirst, hm, hset⟩
  | case2 m s hm s' hattempt ih =>
    have hends := attempt_ends hs (hfits m hfirst hm) fun ws f => hdecides m ws f hfirst hm
    rw [hattempt] at hends
    obtain ⟨hs', hended⟩ := hends
    cases hended with
    | refuted hnot =>
      apply ih hs' (Nat.le_succ_of_le hfirst)
      intro m' hm' hlt
      rcases Nat.lt_or_eq_of_le (Nat.le_of_lt_succ hlt) with hlt | rfl
      · exact hbefore m' hm' hlt
      · exact hnot
  | case3 m s hm =>
    refine ⟨_, rfl, fun m' hm' hlast => ?_⟩
    exact hbefore m' hm' (by omega)

/-- With an oracle that keeps its contract and makespans whose tables can be laid out, a search
always ends with an outcome, and the outcome is correct whenever the token becomes set: a schedule
is a shortest one within the range, and an exhausted range has none. -/
theorem run_correct [Memory] (p : Problem) (hkeeps : oracle.Keeps) (config : SearchConfig)
    (timeline : Timeline) (initial : σ)
    (hfits : ∀ m, config.minMakespan ≤ m → m ≤ config.maxMakespan →
      KeyTable.Fits m p.agents.length p.graph.size) :
    ∃ outcome, (run p oracle timeline config initial).2 = .ok outcome ∧
      outcome.Correct p timeline config.minMakespan config.maxMakespan := by
  apply attempts_correct (State.sound_start p config.pruning timeline initial) hfits
  · intro m windows f _ _ hw hb
    exact hkeeps _ _ (Encoding.var_lt_of_built hw hb)
  · exact Nat.le_refl _
  · intro m' hm' hlt
    omega

section

attribute [local instance] Memory.ample

theorem run_correct_convoy : Oracle.exhaustive.Keeps ∧
    (∀ m, 0 ≤ m → m ≤ 3 → KeyTable.Fits m 2 3) ∧
    ∃ outcome, (run Encoding.convoy Oracle.exhaustive (some (.consulting 1 0))
        ⟨0, 3, .reachability⟩ ()).2 = .ok outcome ∧
      outcome.Correct Encoding.convoy (some (.consulting 1 0)) 0 3 := by
  have hlast : KeyTable.Fits 3 2 3 := by decide
  have hfits : ∀ m, 0 ≤ m → m ≤ 3 → KeyTable.Fits m 2 3 := fun m _ hm => hlast.mono hm
  exact ⟨Oracle.exhaustive_keeps, hfits,
    run_correct Encoding.convoy Oracle.exhaustive_keeps ⟨0, 3, .reachability⟩ _ () hfits⟩

end

end Search

end AgentPaths
