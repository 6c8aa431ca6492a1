import AgentPaths.Sat.Certificate
import Mathlib.Data.List.Basic

/-!
Certificates are right. What is known to be false stays false in every model, so a clause that still
has a true literal demands that one, and hints that come to a clash leave no model.
-/
namespace AgentPaths.Sat

variable {val : Nat → Bool} {f : Falses} {clauses : Array (List Code)} {c : List Code}

namespace Falses

theorem has_add {d e : Code} (h : (f.add d).has e = true) : e = d ∨ f.has e = true := by
  by_cases he : d = e
  · exact Or.inl he.symm
  · right
    unfold has add at h
    rwa [Marks.get_put_of_ne 1 he] at h

theorem agrees_start (n : Nat) (val : Nat → Bool) : Falses.Agrees (Marks.start n) val := by
  intro c hc
  simp [has] at hc

theorem Agrees.add (h : f.Agrees val) {d : Code} (hd : d.holds val = false) :
    (f.add d).Agrees val := by
  intro e he
  rcases has_add he with rfl | he
  · exact hd
  · exact h e he

/-- The opposite of what is true can be taken for false. -/
theorem Agrees.add_neg (h : f.Agrees val) {d : Code} (hd : d.holds val = true) :
    (f.add d.neg).Agrees val :=
  h.add (by rw [Code.holds_neg, hd]; rfl)

theorem Agrees.foldl_add (h : f.Agrees val) (hc : ∀ d ∈ c, d.holds val = false) :
    (c.foldl Falses.add f).Agrees val := by
  induction c generalizing f with
  | nil => exact h
  | cons d rest ih =>
    obtain ⟨hd, hrest⟩ := List.forall_mem_cons.mp hc
    exact ih (h.add hd) hrest

end Falses

/-- A clause that holds demands nothing but what is true. -/
inductive Demand.Fair (val : Nat → Bool) : Demand → Prop
  | nothing : Fair val .nothing
  | literal {c : Code} : c.holds val = true → Fair val (.literal c)

theorem demand_fair (hf : f.Agrees val) {open? : Option Code}
    (hc : (∃ d, open? = some d ∧ d.holds val = true) ∨ ∃ d ∈ c, d.holds val = true) :
    (demand f open? c).Fair val := by
  induction c generalizing open? with
  | nil =>
    rcases hc with ⟨d, rfl, hd⟩ | ⟨d, hd, _⟩
    · exact .literal hd
    · cases hd
  | cons e rest ih =>
    rw [List.exists_mem_cons_iff] at hc
    unfold demand
    split
    next hfalse =>
      -- a literal that is false is not the true one
      apply ih
      rcases hc with hopen | he | hrest
      · exact Or.inl hopen
      · rw [hf e hfalse] at he
        cases he
      · exact Or.inr hrest
    next =>
      cases open? with
      | none =>
        apply ih
        rcases hc with ⟨d, hd, _⟩ | he | hrest
        · cases hd
        · exact Or.inl ⟨e, rfl, he⟩
        · exact Or.inr hrest
      | some d =>
        dsimp only
        split
        next hsame =>
          apply ih
          rcases hc with hopen | he | hrest
          · exact Or.inl hopen
          · exact Or.inl ⟨d, rfl, beq_iff_eq.mp hsame ▸ he⟩
          · exact Or.inr hrest
        next => exact .nothing

/-- No clause that is looked up clashes with a model of all. -/
theorem Models.demand_fair (h : Models val clauses.toList) (hf : f.Agrees val) {i : Nat}
    (hi : clauses[i]? = some c) : (demand f none c).Fair val := by
  apply Sat.demand_fair hf
  right
  apply h c
  rw [← Array.getElem?_toList] at hi
  exact List.mem_of_getElem? hi

namespace Ledger

variable {L L' : Ledger} {s : Step}

theorem clashes_eq_false (hmodels : Models val clauses.toList) (hf : f.Agrees val)
    (hints : List Nat) : clashes clauses f hints = false := by
  induction hints generalizing f with
  | nil => rfl
  | cons i rest ih =>
    rw [clashes]
    cases hi : clauses[i]? with
    | none => rfl
    | some c =>
      have hfair := hmodels.demand_fair hf hi
      dsimp only
      generalize demand f none c = x at hfair
      cases hfair with
      | nothing => exact ih hf
      | literal hl => exact ih (hf.add_neg hl)

/-- All that is in the ledger is true. -/
structure Sound (L : Ledger) (val : Nat → Bool) : Prop where
  clauses : Models val L.clauses.toList
  falses : L.falses.Agrees val

theorem sound_start (n : Nat) {cs : List (List Code)} (h : Models val cs) :
    (start n cs).Sound val :=
  ⟨h, Falses.agrees_start _ _⟩

/-- What is learnt is true, too. -/
theorem Sound.learn (h : L.Sound val) (hlearn : L.learn s = some L') :
    L'.Sound val ∧ ∃ d ∈ s.clause, d.holds val = true := by
  obtain ⟨clauses, falses⟩ := L
  rw [Ledger.learn] at hlearn
  split at hlearn
  next hclash =>
    have htrue : ∃ d ∈ s.clause, d.holds val = true := by
      apply Classical.byContradiction
      intro hnone
      have hfalse : ∀ d ∈ s.clause, d.holds val = false := by simpa using hnone
      have hnot := clashes_eq_false h.clauses (h.falses.foldl_add hfalse) s.hints
      exact absurd hclash (by simp [hnot])
    cases hlearn
    have hclauses : Models val (clauses.push s.clause).toList := by
      intro c hc
      rw [Array.toList_push, List.mem_append, List.mem_singleton] at hc
      rcases hc with hc | rfl
      · exact h.clauses c hc
      · exact htrue
    constructor
    · constructor
      · exact hclauses
      · dsimp only
        split
        next d hd =>
          apply h.falses.add_neg
          simpa [hd] using htrue
        next => exact h.falses
    · exact htrue
  next => cases hlearn

/-- A ledger that is refuted has something in it that is not true. -/
theorem not_sound_of_refutes {steps : List Step} (h : L.refutes steps = true)
    (val : Nat → Bool) : ¬L.Sound val := by
  induction steps generalizing L with
  | nil => cases h
  | cons s rest ih =>
    intro hsound
    rw [refutes] at h
    cases hlearn : L.learn s with
    | none =>
      rw [hlearn] at h
      cases h
    | some L' =>
      obtain ⟨hsound', d, hd, _⟩ := hsound.learn hlearn
      have hsome : s.clause.isEmpty = false := List.isEmpty_eq_false_iff.mpr (List.ne_nil_of_mem hd)
      rw [hlearn] at h
      dsimp only at h
      rw [hsome, Bool.false_or] at h
      exact ih h hsound'

end Ledger

end AgentPaths.Sat
