import AgentPaths.Proofs.Window.Distance

/-!
Windows answer for journeys: what a window admits is where some journey of exactly `m` steps passes.
It does not matter in which calls the window was extended, only that they made more than `m` ticks.
-/
namespace AgentPaths.Window

variable {g : Graph} {a : Agent}

/-- A call that lets a window tick. -/
inductive Extension where
  | step
  | stepUntil (m : Nat)

namespace Extension

def apply (w : Window g) : Extension → Except Misuse (Window g)
  | step => w.step
  | stepUntil m => w.stepUntil m

/-- The ticks behind a window that had `k` of them before the call. -/
def ticks (k : Nat) : Extension → Nat
  | step => k + 1
  | stepUntil m => max k (m + 1)

theorem exists_apply {w : Window g} (h : w.Advanced a)
    (ha : a.initial < g.size ∧ a.goal < g.size) (call : Extension) :
    ∃ w', call.apply w = .ok w' ∧ w'.Advanced a ∧ w'.ticks = call.ticks w.ticks := by
  have hin : w.Inside := by rwa [Inside, h.agent_eq]
  cases call with
  | step =>
    have hstep : w.step = .ok w.tick := if_pos hin
    exact ⟨w.tick, hstep, h.step hstep, rfl⟩
  | stepUntil m =>
    have hstep : w.stepUntil m = .ok (w.extend m) := if_pos (Or.inr hin)
    refine ⟨w.extend m, hstep, h.stepUntil hstep, ?_⟩
    show (w.extend m).ticks = max w.ticks (m + 1)
    rw [extend, ticks_run]
    omega

end Extension

/-- Calls one after the other, up to the first that fails. -/
def extendBy (w : Window g) (calls : List Extension) : Except Misuse (Window g) :=
  calls.foldlM Extension.apply w

theorem exists_extendBy {w : Window g} (h : w.Advanced a)
    (ha : a.initial < g.size ∧ a.goal < g.size) (calls : List Extension) :
    ∃ w', w.extendBy calls = .ok w' ∧ w'.Advanced a ∧
      w'.ticks = calls.foldl Extension.ticks w.ticks := by
  induction calls generalizing w with
  | nil => exact ⟨w, rfl, h, rfl⟩
  | cons call rest ih =>
    obtain ⟨w₁, hcall, h₁, hticks₁⟩ := Extension.exists_apply h ha call
    obtain ⟨w₂, hrest, h₂, hticks₂⟩ := ih h₁
    refine ⟨w₂, ?_, h₂, ?_⟩
    · rw [extendBy, List.foldlM_cons, hcall]
      exact hrest
    · rw [hticks₂, hticks₁, List.foldl_cons]

/-- After calls that have made more than `m` ticks the window has an answer for every node and every
time up to `m`: yes if some journey of `m` steps is on the node at the time, and no otherwise. -/
theorem accessible_iff_journey (ha : a.initial < g.size ∧ a.goal < g.size)
    (calls : List Extension) {m t v : Nat} (hm : m < calls.foldl Extension.ticks 0)
    (hv : v < g.size) (ht : t ≤ m) :
    ∃ w b, (start g a).extendBy calls = .ok w ∧ w.accessible v t m = .ok b ∧
      (b = true ↔ ∃ path, IsJourney g m a path ∧ path[t]? = some v) := by
  obtain ⟨w, hcalls, hw, hticks⟩ := exists_extendBy .start ha calls
  have hlt : m < w.ticks := by rwa [hticks]
  refine ⟨w, w.admits v t m, hcalls, ?_, ?_⟩
  · rw [accessible, if_neg (by omega), if_neg (by omega), if_neg (by omega)]
  · rw [hw.admits_iff ha hlt, exists_isJourney_through]

/-- A ring of four nodes, of which one has a loop, and a fifth node apart from them. -/
def ring : Graph := (((((Graph.empty 5).join 0 1).join 1 2).join 2 3).join 3 0).join 1 1

/-- Five calls that make four ticks: `stepUntil 0` finds nothing left to do. -/
theorem accessible_iff_journey_ring :
    (0 < ring.size ∧ 2 < ring.size) ∧
    3 < [Extension.step, .stepUntil 1, .step, .stepUntil 0, .step].foldl Extension.ticks 0 ∧
    3 < ring.size ∧ 1 ≤ 3 ∧
    ∃ w b, (start ring ⟨0, 2⟩).extendBy [.step, .stepUntil 1, .step, .stepUntil 0, .step] = .ok w ∧
      w.accessible 3 1 3 = .ok b ∧
      (b = true ↔ ∃ path, IsJourney ring 3 ⟨0, 2⟩ path ∧ path[1]? = some 3) := by
  have ha : 0 < ring.size ∧ 2 < ring.size := by decide
  have hm : 3 < [Extension.step, .stepUntil 1, .step, .stepUntil 0, .step].foldl
    Extension.ticks 0 := by decide
  exact ⟨ha, hm, by decide, by decide, accessible_iff_journey ha _ hm (by decide) (by decide)⟩

end AgentPaths.Window
