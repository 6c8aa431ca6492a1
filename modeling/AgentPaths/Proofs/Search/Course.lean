import AgentPaths.Proofs.Encoding.Allotment
import AgentPaths.Search

/-!
What a search leaves behind, whatever its oracle answers and whenever the token becomes set. An
attempt either refutes its makespan and the search goes on, or it halts the search in one of a few
ways; so a run is a stretch of refuted makespans and one halt, and everything about its attempts,
its calls and its outcome is read off these two.
-/
namespace AgentPaths

namespace Moment

/-- The place of a moment in a run. All looks during one call share a place. -/
def position : Moment → Nat
  | outset => 0
  | attempt m => 4 * m + 1
  | generating m => 4 * m + 2
  | solving m => 4 * m + 3
  | consulting m _ => 4 * m + 4

/-- A search from makespan `first` on comes to this moment, if it lasts that long. The oracle is
only called where there is a formula. -/
def Due (first : Nat) (hasFormula : Nat → Prop) : Moment → Prop
  | outset => True
  | attempt m => first ≤ m
  | generating m => first ≤ m
  | solving m => first ≤ m ∧ hasFormula m
  | consulting m _ => first ≤ m ∧ hasFormula m

variable {x : Moment} {m : Nat}

theorem position_eq_attempt : x.position = 4 * m + 1 ↔ x = attempt m := by
  cases x <;> simp only [position, reduceCtorEq, iff_false, attempt.injEq] <;> omega

theorem position_eq_generating : x.position = 4 * m + 2 ↔ x = generating m := by
  cases x <;> simp only [position, reduceCtorEq, iff_false, generating.injEq] <;> omega

theorem position_eq_solving : x.position = 4 * m + 3 ↔ x = solving m := by
  cases x <;> simp only [position, reduceCtorEq, iff_false, solving.injEq] <;> omega

theorem position_eq_consulting : x.position = 4 * m + 4 ↔ ∃ looks, x = consulting m looks := by
  cases x <;> simp only [position, reduceCtorEq, exists_false, iff_false, consulting.injEq,
    exists_and_left, exists_eq', and_true] <;> omega

/-- Before its first attempt a search only comes to the outset. -/
theorem Due.eq_outset {first : Nat} {hasFormula : Nat → Prop} (h : x.Due first hasFormula)
    (hx : x.position ≤ 4 * first) : x = outset := by
  cases x <;> simp only [position, Due] at h hx ⊢ <;> omega

end Moment

def Verdict.GoesOn : Verdict → Prop
  | unreachable _ => True
  | unsatisfiable => True
  | satisfiable => False
  | cancelled => False

theorem Timeline.duringCall_eq_true {timeline : Timeline} {m : Nat} :
    timeline.duringCall m = true ↔ ∃ looks, timeline = some (.consulting m looks) := by
  unfold duringCall
  split
  next m' looks =>
    rw [decide_eq_true_eq]
    constructor
    · rintro rfl
      exact ⟨looks, rfl⟩
    · rintro ⟨_, h⟩
      cases h
      rfl
  next h =>
    constructor
    · intro hset
      cases hset
    · rintro ⟨looks, htimeline⟩
      exact absurd htimeline (h m looks)

theorem Window.extend_extend {g : Graph} (w : Window g) {m m' : Nat} (h : m ≤ m') :
    (w.extend m).extend m' = w.extend m' := by
  rw [extend, extend, extend, ticks_run, ← run_add]
  congr 1
  omega

namespace Search

/-- One call of the oracle, with what it answered. -/
structure Consultation where
  makespan : Nat
  formula : Formula
  answer : Except OracleError Answer

namespace Consultation

def call (c : Consultation) : Call := ⟨c.formula.varCount, c.formula.clauses.toList⟩

def attempt (c : Consultation) (v : Verdict) : Attempt :=
  ⟨c.makespan, c.formula.varCount, c.formula.clauses.size, v⟩

end Consultation

variable {σ : Type} (p : Problem) (config : SearchConfig) (oracle : Oracle σ) (timeline : Timeline)

/-- The windows of all agents, made for one makespan. -/
def windowsAt (m : Nat) : Option (List (Window p.graph)) :=
  match config.pruning with
  | .reachability => some ((p.agents.map (Window.start p.graph)).map (Window.extend · m))
  | .disabled => none

def encodingAt [Memory] (m : Nat) : Except Misuse Encoding :=
  Encoding.build p m (windowsAt p config m)

def HasFormula [Memory] (m : Nat) : Prop := ∃ f, encodingAt p config m = .ok (.built f)

/-- The token has become set by place `k` of the run. -/
def SetBy [Memory] (k : Nat) : Prop :=
  ∃ x, timeline = some x ∧ x.Due config.minMakespan (HasFormula p config) ∧ x.position ≤ k

/-- The oracle answers the consultations in turn, which take it from one state to another. -/
inductive Replies (initial : σ) : List Consultation → σ → Prop
  | nil : Replies initial [] initial
  | concat {cs : List Consultation} {c : Consultation} {s s' : σ} : Replies initial cs s →
      oracle.solve s (timeline.poll c.makespan) c.call.varCount c.call.clauses = (c.answer, s') →
      Replies initial (cs ++ [c]) s'

/-- A consultation about the formula of its makespan, begun with a clear token. -/
structure Made [Memory] (c : Consultation) : Prop where
  encoding : encodingAt p config c.makespan = .ok (.built c.formula)
  clear : ¬SetBy p config timeline (Moment.solving c.makespan).position

/-- The oracle errs, or it answers with a model that cannot be decoded while the token is clear. -/
def Fails [Memory] (c : Consultation) : SolveError → Prop
  | .oracle e => c.answer = .error e
  | .decode e => ¬SetBy p config timeline (Moment.consulting c.makespan 0).position ∧
      ∃ model, c.answer = .ok (.satisfiable model) ∧
        Schedule.decode c.formula p.agents.length p.graph.size model = .error e

variable {p config oracle timeline} {m k : Nat} {initial : σ} {cs : List Consultation}

theorem setBy_succ [Memory] : SetBy p config timeline (k + 1) ↔ SetBy p config timeline k ∨
    ∃ x, timeline = some x ∧ x.Due config.minMakespan (HasFormula p config) ∧
      x.position = k + 1 := by
  constructor
  · rintro ⟨x, hx, hdue, hk⟩
    rcases Nat.lt_or_eq_of_le hk with hlt | heq
    · exact Or.inl ⟨x, hx, hdue, by omega⟩
    · exact Or.inr ⟨x, hx, hdue, heq⟩
  · rintro (⟨x, hx, hdue, hk⟩ | ⟨x, hx, hdue, hk⟩)
    · exact ⟨x, hx, hdue, by omega⟩
    · exact ⟨x, hx, hdue, by omega⟩

theorem SetBy.mono [Memory] {k' : Nat} (h : SetBy p config timeline k) (hk : k ≤ k') :
    SetBy p config timeline k' := by
  obtain ⟨x, hx, hdue, hle⟩ := h
  exact ⟨x, hx, hdue, Nat.le_trans hle hk⟩

/-- Without a formula the next place that counts is the next attempt. -/
theorem setBy_of_no_formula [Memory] (h : ¬HasFormula p config m) :
    SetBy p config timeline (4 * (m + 1)) ↔ SetBy p config timeline (4 * m + 2) := by
  rw [show 4 * (m + 1) = 4 * m + 2 + 1 + 1 by omega, setBy_succ, setBy_succ]
  constructor
  · rintro ((hset | ⟨x, _, hdue, hx⟩) | ⟨x, _, hdue, hx⟩)
    · exact hset
    · rw [Moment.position_eq_solving.mp hx] at hdue
      exact absurd hdue.2 h
    · obtain ⟨looks, rfl⟩ := Moment.position_eq_consulting.mp hx
      exact absurd hdue.2 h
  · intro hset
    exact Or.inl (Or.inl hset)

/-- The oracle has been consulted about `cs` and about nothing else. -/
structure Heard {g : Graph} (oracle : Oracle σ) (timeline : Timeline) (initial : σ)
    (cs : List Consultation) (s : State g σ) : Prop where
  calls : s.calls.toList = cs.map Consultation.call
  replies : Replies oracle timeline initial cs s.oracle

/-- A state at place `k` of a run, whose windows are ready for the makespans from `m` on. -/
structure Linked [Memory] (p : Problem) (config : SearchConfig) (oracle : Oracle σ)
    (timeline : Timeline)
    (initial : σ) (m k : Nat) (cs : List Consultation) (s : State p.graph σ) : Prop
    extends Heard oracle timeline initial cs s where
  windows : ∀ m' ≥ m, (s.extend m').windows = windowsAt p config m'
  token : s.cancelled = true ↔ SetBy p config timeline k

namespace Linked

variable {s : State p.graph σ}

theorem start [Memory] : Linked p config oracle timeline initial config.minMakespan
    (4 * config.minMakespan) [] (State.start p config.pruning timeline initial) := by
  refine ⟨⟨rfl, .nil⟩, ?_, ?_⟩
  · intro m' _
    unfold State.start State.extend windowsAt
    cases config.pruning <;> rfl
  · change (timeline == some .outset) = true ↔ _
    rw [beq_iff_eq]
    constructor
    · intro h
      exact ⟨.outset, h, trivial, Nat.zero_le _⟩
    · rintro ⟨x, hx, hdue, hk⟩
      rw [hx, hdue.eq_outset hk]

/-- A moment that is alone at its place. -/
theorem reach [Memory] (h : Linked p config oracle timeline initial m k cs s) {x : Moment}
    (hdue : x.Due config.minMakespan (HasFormula p config)) (hx : ∀ y, y.position = k + 1 ↔ y = x) :
    Linked p config oracle timeline initial m (k + 1) cs (s.reach timeline x) := by
  refine ⟨⟨h.calls, h.replies⟩, h.windows, ?_⟩
  change (s.cancelled || timeline == some x) = true ↔ _
  rw [Bool.or_eq_true, h.token, beq_iff_eq, setBy_succ]
  simp only [hx]
  constructor
  · rintro (hset | htimeline)
    · exact Or.inl hset
    · exact Or.inr ⟨x, htimeline, hdue, rfl⟩
  · rintro (hset | ⟨y, hy, _, rfl⟩)
    · exact Or.inl hset
    · exact Or.inr hy

theorem extend [Memory] (h : Linked p config oracle timeline initial m k cs s) :
    Linked p config oracle timeline initial m k cs (s.extend m) := by
  refine ⟨⟨h.calls, h.replies⟩, ?_, h.token⟩
  intro m' hm'
  rw [← h.windows m' hm']
  unfold State.extend
  cases s.windows with
  | none => rfl
  | some ws =>
    simp only [Option.map_some, List.map_map, Option.some.injEq]
    exact List.map_congr_left fun w _ => w.extend_extend hm'

theorem consult [Memory] (h : Linked p config oracle timeline initial m (4 * m + 3) cs s)
    {f : Formula} {answer : Except OracleError Answer} {s' : State p.graph σ}
    (hfirst : config.minMakespan ≤ m) (hf : encodingAt p config m = .ok (.built f))
    (hcall : s.consult oracle timeline m ⟨f.varCount, f.clauses.toList⟩ = (answer, s')) :
    Linked p config oracle timeline initial m (4 * m + 4) (cs ++ [⟨m, f, answer⟩]) s' := by
  cases hcall
  refine ⟨⟨?_, h.replies.concat rfl⟩, h.windows, ?_⟩
  · change (s.calls.push _).toList = _
    rw [Array.toList_push, h.calls, List.map_append]
    rfl
  · change (s.cancelled || timeline.duringCall m) = true ↔ _
    rw [Bool.or_eq_true, h.token, setBy_succ (k := 4 * m + 3)]
    refine or_congr_right ?_
    constructor
    · intro hset
      obtain ⟨looks, htimeline⟩ := Timeline.duringCall_eq_true.mp hset
      exact ⟨_, htimeline, ⟨hfirst, f, hf⟩, rfl⟩
    · rintro ⟨x, htimeline, _, hx⟩
      obtain ⟨looks, rfl⟩ := Moment.position_eq_consulting.mp hx
      exact Timeline.duringCall_eq_true.mpr ⟨looks, htimeline⟩

theorem record [Memory] (h : Linked p config oracle timeline initial m k cs s) (a : Attempt) :
    Linked p config oracle timeline initial m k cs (s.record a) :=
  ⟨⟨h.calls, h.replies⟩, h.windows, h.token⟩

end Linked

/-- How an attempt refutes makespan `m`. -/
inductive Refutes [Memory] (p : Problem) (config : SearchConfig) (timeline : Timeline) (m : Nat) :
    Attempt → List Consultation → Prop
  | unreachable {agent : Nat} : encodingAt p config m = .ok (.unreachable agent) →
      Refutes p config timeline m ⟨m, 0, 0, .unreachable agent⟩ []
  | unsatisfiable {c : Consultation} : c.makespan = m → Made p config timeline c →
      c.answer = .ok .unsatisfiable →
      ¬SetBy p config timeline (Moment.consulting m 0).position →
      Refutes p config timeline m (c.attempt .unsatisfiable) [c]

/-- How an attempt at makespan `m` closes a search with an outcome: it is cancelled before its call
or after it, or it has a schedule. -/
inductive Closes [Memory] (p : Problem) (config : SearchConfig) (timeline : Timeline) (m : Nat) :
    Attempt → List Consultation → Outcome → Prop
  | cancelled {n k : Nat} : SetBy p config timeline (Moment.solving m).position →
      Closes p config timeline m ⟨m, n, k, .cancelled⟩ [] (.aborted m)
  | overtaken {c : Consultation} {answer : Answer} : c.makespan = m → Made p config timeline c →
      c.answer = .ok answer → SetBy p config timeline (Moment.consulting m 0).position →
      Closes p config timeline m (c.attempt .cancelled) [c] (.aborted m)
  | solved {c : Consultation} {model : Assignment} {schedule : Schedule} : c.makespan = m →
      Made p config timeline c → c.answer = .ok (.satisfiable model) →
      ¬SetBy p config timeline (Moment.consulting m 0).position →
      Schedule.decode c.formula p.agents.length p.graph.size model = .ok schedule →
      Closes p config timeline m (c.attempt .satisfiable) [c] (.solved m schedule)

/-- How a search halts that has come to makespan `m`. -/
inductive Halts [Memory] (p : Problem) (config : SearchConfig) (timeline : Timeline) (m : Nat) :
    List Attempt → List Consultation → Result → Prop
  | exhausted : config.maxMakespan < m → Halts p config timeline m [] [] (.ok .exhausted)
  | closed {a : Attempt} {more : List Consultation} {outcome : Outcome} :
      m ≤ config.maxMakespan → Closes p config timeline m a more outcome →
      Halts p config timeline m [a] more (.ok outcome)
  | failed {c : Consultation} {e : SolveError} : m ≤ config.maxMakespan → c.makespan = m →
      Made p config timeline c → Fails p config timeline c e →
      Halts p config timeline m [] [c] (.error e)
  | noRoom {misuse : Misuse} : m ≤ config.maxMakespan →
      KeyTable.lack? m p.agents.length p.graph.size = some misuse →
      ¬SetBy p config timeline (Moment.generating m).position →
      Halts p config timeline m [] [] (.error (.decode (.misuse misuse)))

/-- Where an attempt at makespan `m` leads from a state with the consultations `cs`. -/
def Leads [Memory] (p : Problem) (config : SearchConfig) (oracle : Oracle σ) (timeline : Timeline)
    (initial : σ) (m : Nat) (cs : List Consultation) (s : State p.graph σ) :
    State p.graph σ × Option Result → Prop
  | (s', none) => ∃ a more, Refutes p config timeline m a more ∧
      s'.attempts.toList = s.attempts.toList ++ [a] ∧
      Linked p config oracle timeline initial (m + 1) (4 * (m + 1)) (cs ++ more) s'
  | (s', some result) => ∃ added more, Halts p config timeline m added more result ∧
      s'.attempts.toList = s.attempts.toList ++ added ∧
      Heard oracle timeline initial (cs ++ more) s'

variable {s : State p.graph σ}

theorem Linked.mono [Memory] (h : Linked p config oracle timeline initial m k cs s) {m' : Nat}
    (hm : m ≤ m') : Linked p config oracle timeline initial m' k cs s :=
  ⟨h.toHeard, fun m'' hm'' => h.windows m'' (Nat.le_trans hm hm''), h.token⟩

theorem Linked.abort [Memory] (h : Linked p config oracle timeline initial m k cs s)
    (hm : m ≤ config.maxMakespan) (hk : k ≤ (Moment.solving m).position)
    (hset : s.cancelled = true) (n l : Nat) :
    Leads p config oracle timeline initial m cs s (abort p s m n l) := by
  refine ⟨_, [], .closed hm (.cancelled ((h.token.mp hset).mono hk)), Array.toList_push, ?_⟩
  rw [List.append_nil]
  exact (h.record _).toHeard

theorem solveFormula_leads [Memory] {f : Formula} (hfirst : config.minMakespan ≤ m)
    (hm : m ≤ config.maxMakespan) (hf : encodingAt p config m = .ok (.built f))
    (h : Linked p config oracle timeline initial m (4 * m + 2) cs s) :
    Leads p config oracle timeline initial m cs s (solveFormula p oracle timeline m f s) := by
  have h₁ : Linked p config oracle timeline initial m (4 * m + 3) cs
      (s.reach timeline (.solving m)) :=
    h.reach (x := .solving m) ⟨hfirst, f, hf⟩ fun _ => Moment.position_eq_solving
  unfold solveFormula
  dsimp only
  split
  next hset => exact h₁.abort hm (Nat.le_refl _) hset f.varCount f.clauses.size
  next hclear =>
    generalize hcall : (s.reach timeline (.solving m)).consult oracle timeline m
      ⟨f.varCount, f.clauses.toList⟩ = reply
    obtain ⟨answer, s₂⟩ := reply
    have h₂ := h₁.consult hfirst hf hcall
    have hattempts : s₂.attempts.toList = s.attempts.toList := by
      cases hcall
      rfl
    have hmade : Made p config timeline ⟨m, f, answer⟩ :=
      ⟨hf, fun hset => hclear (h₁.token.mpr hset)⟩
    cases answer with
    | error e =>
      exact ⟨[], _, .failed hm rfl hmade rfl, by rw [hattempts, List.append_nil], h₂.toHeard⟩
    | ok answer =>
      dsimp only
      split
      next hset =>
        have hcloses := Closes.overtaken rfl hmade rfl (h₂.token.mp hset)
        refine ⟨_, _, .closed hm hcloses, ?_, (h₂.record _).toHeard⟩
        rw [← hattempts]
        exact Array.toList_push
      next hclear₂ =>
        have hclear₂ : ¬SetBy p config timeline (Moment.consulting m 0).position :=
          fun hset => hclear₂ (h₂.token.mpr hset)
        cases answer with
        | unsatisfiable =>
          refine ⟨_, _, .unsatisfiable rfl hmade rfl hclear₂, ?_,
            (h₂.record _).mono (Nat.le_succ m)⟩
          rw [← hattempts]
          exact Array.toList_push
        | satisfiable model =>
          dsimp only
          split
          next e hdecode =>
            have hfails : Fails p config timeline ⟨m, f, .ok (.satisfiable model)⟩ (.decode e) :=
              ⟨hclear₂, model, rfl, hdecode⟩
            refine ⟨[], _, .failed hm rfl hmade hfails, ?_, h₂.toHeard⟩
            rw [hattempts, List.append_nil]
          next schedule hdecode =>
            refine ⟨_, _, .closed hm (.solved rfl hmade rfl hclear₂ hdecode), ?_,
              (h₂.record _).toHeard⟩
            rw [← hattempts]
            exact Array.toList_push

theorem prepared_windowsAt (config : SearchConfig) (m : Nat) :
    Encoding.Prepared p m (windowsAt p config m) := by
  unfold windowsAt
  cases config.pruning with
  | reachability => exact (Encoding.windowsFor_start.extend m).prepared
  | disabled => exact Encoding.prepared_none

theorem attempt_leads [Memory] (hfirst : config.minMakespan ≤ m) (hm : m ≤ config.maxMakespan)
    (h : Linked p config oracle timeline initial m (4 * m) cs s) :
    Leads p config oracle timeline initial m cs s (attempt p oracle timeline m s) := by
  have h₁ : Linked p config oracle timeline initial m (4 * m + 1) cs
      (s.reach timeline (.attempt m)) :=
    h.reach (x := .attempt m) hfirst fun _ => Moment.position_eq_attempt
  have h₂ : Linked p config oracle timeline initial m (4 * m + 2) cs
      (((s.reach timeline (.attempt m)).reach timeline (.generating m)).extend m) :=
    (h₁.reach (x := .generating m) hfirst fun _ => Moment.position_eq_generating).extend
  have hwindows : (((s.reach timeline (.attempt m)).reach timeline (.generating m)).extend
      m).windows = windowsAt p config m := h.windows m (Nat.le_refl m)
  unfold attempt
  dsimp only
  split
  next hset => exact h₁.abort hm (by simp [Moment.position]) hset 0 0
  next =>
    split
    next hset => exact h₂.abort hm (by simp [Moment.position]) hset 0 0
    next hclear =>
      rw [hwindows]
      by_cases hfits : KeyTable.Fits m p.agents.length p.graph.size
      · obtain ⟨e, he⟩ := Encoding.exists_build (prepared_windowsAt config m) hfits
        rw [he]
        cases e with
        | unreachable agent =>
          have hnone : ¬HasFormula p config m := by
            rintro ⟨f, hf⟩
            cases he.symm.trans hf
          refine ⟨_, [], .unreachable he, Array.toList_push, ?_⟩
          rw [List.append_nil]
          have h₃ := (h₂.record ⟨m, 0, 0, .unreachable agent⟩).mono (Nat.le_succ m)
          exact ⟨h₃.toHeard, h₃.windows, h₃.token.trans (setBy_of_no_formula hnone).symm⟩
        | built f => exact solveFormula_leads hfirst hm he h₂
      · obtain ⟨misuse, hlack⟩ := KeyTable.exists_lack?_of_not_fits hfits
        rw [Encoding.build_of_lack (prepared_windowsAt config m) hlack]
        refine ⟨[], [], .noRoom hm hlack fun hset => hclear (h₂.token.mpr hset), ?_, ?_⟩
        · exact (List.append_nil _).symm
        · rw [List.append_nil]
          exact h₂.toHeard

/-- Attempts and consultations that have refuted the makespans before `m`. -/
inductive Refuted [Memory] (p : Problem) (config : SearchConfig) (timeline : Timeline) :
    Nat → List Attempt → List Consultation → Prop
  | nil : Refuted p config timeline config.minMakespan [] []
  | concat {m : Nat} {before : List Attempt} {cs : List Consultation} {a : Attempt}
      {more : List Consultation} : Refuted p config timeline m before cs →
      m ≤ config.maxMakespan → Refutes p config timeline m a more →
      Refuted p config timeline (m + 1) (before ++ [a]) (cs ++ more)

namespace Refuted

variable {before : List Attempt}

theorem first_le [Memory] (h : Refuted p config timeline m before cs) : config.minMakespan ≤ m := by
  induction h with
  | nil => exact Nat.le_refl _
  | concat _ _ _ ih => omega

theorem le_last [Memory] (h : Refuted p config timeline m before cs) :
    m ≤ max config.minMakespan (config.maxMakespan + 1) := by
  induction h with
  | nil => exact Nat.le_max_left _ _
  | concat _ hm _ _ => omega

theorem length [Memory] (h : Refuted p config timeline m before cs) :
    config.minMakespan + before.length = m := by
  induction h with
  | nil => rfl
  | concat _ _ _ ih =>
    rw [List.length_append, List.length_singleton]
    omega

theorem makespans [Memory] (h : Refuted p config timeline m before cs) :
    before.map Attempt.makespan = List.range' config.minMakespan before.length := by
  induction h with
  | nil => rfl
  | concat hbefore _ ha ih =>
    rw [List.map_append, ih, List.length_append, List.length_singleton, List.range'_concat,
      Nat.one_mul, hbefore.length]
    cases ha with
    | unreachable => rfl
    | unsatisfiable hc => rw [← hc]; rfl

theorem goesOn [Memory] (h : Refuted p config timeline m before cs) :
    ∀ a ∈ before, a.verdict.GoesOn := by
  induction h with
  | nil => simp
  | concat _ _ ha ih =>
    intro b hb
    rcases List.mem_append.mp hb with hb | hb
    · exact ih b hb
    · rw [List.mem_singleton.mp hb]
      cases ha <;> trivial

theorem made [Memory] (h : Refuted p config timeline m before cs) :
    ∀ c ∈ cs, Made p config timeline c ∧ c.answer = .ok .unsatisfiable := by
  induction h with
  | nil => simp
  | concat _ _ ha ih =>
    intro c hc
    rcases List.mem_append.mp hc with hc | hc
    · exact ih c hc
    · cases ha with
      | unreachable => cases hc
      | unsatisfiable _ hmade hanswer =>
        rw [List.mem_singleton.mp hc]
        exact ⟨hmade, hanswer⟩

/-- The oracle was consulted about the makespans that are refuted as unsatisfiable. -/
theorem consulted [Memory] (h : Refuted p config timeline m before cs) :
    before.filter (·.verdict = .unsatisfiable) = cs.map (·.attempt .unsatisfiable) := by
  induction h with
  | nil => rfl
  | concat _ _ ha ih =>
    rw [List.filter_append, List.map_append, ih]
    cases ha <;> rfl

end Refuted

/-- A run refutes one makespan after the other, until it halts. -/
theorem attempts_course [Memory] (hr : Refuted p config timeline m s.attempts.toList cs)
    (hl : Linked p config oracle timeline initial m (4 * m) cs s) : ∃ m' before cs₀ added more,
      Refuted p config timeline m' before cs₀ ∧
      Halts p config timeline m' added more (attempts p oracle timeline config.maxMakespan m s).2 ∧
      (attempts p oracle timeline config.maxMakespan m s).1.attempts.toList = before ++ added ∧
      Heard oracle timeline initial (cs₀ ++ more)
        (attempts p oracle timeline config.maxMakespan m s).1 := by
  fun_induction attempts p oracle timeline config.maxMakespan m s generalizing cs with
  | case1 m s hm s' result hattempt =>
    have hleads := attempt_leads hr.first_le hm hl
    rw [hattempt] at hleads
    obtain ⟨added, more, hhalts, hadded, hheard⟩ := hleads
    exact ⟨m, _, cs, added, more, hr, hhalts, hadded, hheard⟩
  | case2 m s hm s' hattempt ih =>
    have hleads := attempt_leads hr.first_le hm hl
    rw [hattempt] at hleads
    obtain ⟨a, more, hrefutes, hadded, hl'⟩ := hleads
    refine ih ?_ hl'
    rw [hadded]
    exact hr.concat hm hrefutes
  | case3 m s hm =>
    refine ⟨m, _, cs, [], [], hr, .exhausted (by omega), (List.append_nil _).symm, ?_⟩
    rw [List.append_nil]
    exact hl.toHeard

end Search

end AgentPaths
