import AgentPaths.Proofs.Search.Course
import AgentPaths.Proofs.Token
import Mathlib.Order.WellFounded

/-!
What a run sees of a token that others have as well. Whatever they do with it, once it has been seen
set it stays so; so either it is never seen set, or there is a first moment of the run at which it
is. With this moment as its timeline the run sees at every look what the token shows.
-/
namespace AgentPaths

namespace Moment

/-- The number of looks during the call, 0 outside of calls. -/
def looks : Moment → Nat
  | consulting _ looks => looks
  | _ => 0

/-- One moment of a run is another or comes before it. -/
def Before (x y : Moment) : Prop :=
  x.position < y.position ∨ (x.position = y.position ∧ x.looks ≤ y.looks)

variable {x y : Moment}

theorem Before.position_le (h : x.Before y) : x.position ≤ y.position := by
  rcases h with hlt | ⟨heq, _⟩
  · exact Nat.le_of_lt hlt
  · exact Nat.le_of_eq heq

/-- No other moment has the place of one outside of calls. -/
theorem before_of_position_le (h : x.position ≤ y.position) (hy : ∀ m look, y ≠ consulting m look) :
    x.Before y := by
  rcases Nat.lt_or_eq_of_le h with hlt | heq
  · exact Or.inl hlt
  · have hlooks : x.looks = 0 := by
      cases x with
      | consulting m look =>
        obtain ⟨look', rfl⟩ := position_eq_consulting.mp heq.symm
        exact absurd rfl (hy m look')
      | _ => rfl
    exact Or.inr ⟨heq, hlooks ▸ Nat.zero_le _⟩

theorem exists_first {seen : Moment → Prop} (h : ∃ x, seen x) :
    ∃ x, seen x ∧ ∀ y, seen y → x.Before y := by
  have hwf : WellFounded (InvImage (Prod.Lex (· < ·) (· < ·))
      fun x : Moment => (x.position, x.looks)) :=
    InvImage.wf _ (Prod.lex Nat.lt_wfRel Nat.lt_wfRel).wf
  obtain ⟨x, hx, hmin⟩ := hwf.has_min {x | seen x} h
  use x, hx
  intro y hy
  have hnot := hmin y hy
  rw [InvImage, Prod.lex_def] at hnot
  dsimp only at hnot
  unfold Before
  omega

end Moment

theorem Timeline.poll_eq_true {timeline : Timeline} {m look : Nat} :
    timeline.poll m look = true ↔ ∃ looks ≤ look, timeline = some (.consulting m looks) := by
  unfold poll
  split
  next m' looks =>
    rw [Bool.and_eq_true, decide_eq_true_eq, decide_eq_true_eq]
    constructor
    · intro h
      exact ⟨looks, h.2, h.1 ▸ rfl⟩
    · intro h
      obtain ⟨_, hle, he⟩ := h
      cases he
      exact ⟨rfl, hle⟩
  next h =>
    constructor
    · intro hset
      cases hset
    · intro hset
      obtain ⟨looks, _, htimeline⟩ := hset
      exact absurd htimeline (h m looks)

namespace Search

variable {p : Problem} {config : SearchConfig} {timeline : Timeline} {seen : Moment → Prop}

/-- A run with this timeline sees at its looks what has been seen: between the calls, at each look
during a call that begins with a clear token, and after the calls. -/
structure Shows [Memory] (p : Problem) (config : SearchConfig) (timeline : Timeline)
    (seen : Moment → Prop) : Prop where
  setBy : ∀ x : Moment, x.Due config.minMakespan (HasFormula p config) →
    (∀ m look, x ≠ .consulting m look) → (SetBy p config timeline x.position ↔ seen x)
  poll : ∀ m look, (Moment.consulting m look).Due config.minMakespan (HasFormula p config) →
    ¬SetBy p config timeline (Moment.solving m).position →
    (timeline.poll m look = true ↔ seen (.consulting m look))
  setBy_consulting : ∀ m, (Moment.consulting m 0).Due config.minMakespan (HasFormula p config) →
    (SetBy p config timeline (Moment.consulting m 0).position ↔
      ∃ look, seen (.consulting m look))

theorem shows_none [Memory]
    (h : ∀ x : Moment, x.Due config.minMakespan (HasFormula p config) → ¬seen x) :
    Shows p config none seen := by
  have hset (k : Nat) : ¬SetBy p config none k := by
    intro hset
    obtain ⟨x, hx, _⟩ := hset
    cases hx
  constructor
  · intro x hdue _
    exact iff_of_false (hset _) (h x hdue)
  · intro m look hdue _
    exact iff_of_false Bool.false_ne_true (h _ hdue)
  · intro m hdue
    apply iff_of_false (hset _)
    intro hseen
    obtain ⟨look, hlook⟩ := hseen
    exact h (.consulting m look) hdue hlook

theorem setBy_some [Memory] {x : Moment} {k : Nat}
    (hdue : x.Due config.minMakespan (HasFormula p config)) :
    SetBy p config (some x) k ↔ x.position ≤ k := by
  constructor
  · intro hset
    obtain ⟨y, hy, _, hle⟩ := hset
    cases hy
    exact hle
  · intro hle
    exact ⟨x, rfl, hdue, hle⟩

theorem shows_first [Memory] {x : Moment} (hlasting : ∀ x y : Moment, x.Before y → seen x → seen y)
    (hdue : x.Due config.minMakespan (HasFormula p config)) (hx : seen x)
    (hfirst : ∀ y : Moment, y.Due config.minMakespan (HasFormula p config) → seen y → x.Before y) :
    Shows p config (some x) seen := by
  constructor
  · intro y hy hcall
    rw [setBy_some hdue]
    constructor
    · intro hle
      exact hlasting x y (Moment.before_of_position_le hle hcall) hx
    · intro hseen
      exact (hfirst y hy hseen).position_le
  · intro m look hy hclear
    rw [setBy_some hdue] at hclear
    rw [Timeline.poll_eq_true]
    constructor
    · intro hpoll
      obtain ⟨looks, hle, he⟩ := hpoll
      obtain rfl : x = .consulting m looks := Option.some.inj he
      exact hlasting (.consulting m looks) (.consulting m look) (Or.inr ⟨rfl, hle⟩) hx
    · intro hseen
      -- the call began with a clear token, so the first moment is a look during the call
      rcases hfirst _ hy hseen with hlt | ⟨heq, hle⟩
      · simp only [Moment.position] at hlt hclear
        omega
      · obtain ⟨looks, rfl⟩ := Moment.position_eq_consulting.mp heq
        exact ⟨looks, hle, rfl⟩
  · intro m hy
    rw [setBy_some hdue]
    constructor
    · intro hle
      have hbefore : x.Before (.consulting m x.looks) := by
        rcases Nat.lt_or_eq_of_le hle with hlt | heq
        · exact Or.inl hlt
        · exact Or.inr ⟨heq, Nat.le_refl _⟩
      exact ⟨x.looks, hlasting x _ hbefore hx⟩
    · intro hseen
      obtain ⟨look, hseen⟩ := hseen
      exact (hfirst (.consulting m look) hy hseen).position_le

/-- Whatever is seen of something that lasts, there is a timeline that shows it. -/
theorem exists_timeline [Memory] (p : Problem) (config : SearchConfig)
    (hlasting : ∀ x y : Moment, x.Before y → seen x → seen y) :
    ∃ timeline, Shows p config timeline seen := by
  by_cases h : ∃ x : Moment, x.Due config.minMakespan (HasFormula p config) ∧ seen x
  · obtain ⟨x, ⟨hdue, hx⟩, hfirst⟩ := Moment.exists_first h
    exact ⟨some x, shows_first hlasting hdue hx fun y hy hseen => hfirst y ⟨hy, hseen⟩⟩
  · exact ⟨none, shows_none fun x hdue hx => h ⟨x, hdue, hx⟩⟩

/-- Whatever is done with the tokens while a run looks at one of them now and then, there is a
timeline that shows what it sees. -/
theorem exists_timeline_of_tokens [Memory] (p : Problem) (config : SearchConfig)
    {history : Nat → Tokens} (hhistory : ∀ k, (history k).Later (history (k + 1)))
    {clock : Moment → Nat} (hclock : ∀ x y : Moment, x.Before y → clock x ≤ clock y) (i : Nat) :
    ∃ timeline, Shows p config timeline
      fun x => (history (clock x)).isCancelled i = .ok true := by
  apply exists_timeline
  intro x y hxy hset
  have hlater := Tokens.later_of_le hhistory (hclock x y hxy)
  obtain ⟨b, hb, htrue⟩ := hlater.exists_isCancelled hset
  rwa [htrue rfl] at hb

end Search

end AgentPaths
