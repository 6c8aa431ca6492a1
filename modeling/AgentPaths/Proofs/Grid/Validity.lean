import AgentPaths.Proofs.Grid.Outcome

/-!
What a builder says of itself, and what becomes of it. A builder that calls itself invalid is not
built, for the reasons that it gives. One that does not is built unless an agent is on a wall or two
agents share a cell: the builder is silent about both, and only the building finds them.
-/
namespace AgentPaths.GridBuilder

variable {b : GridBuilder} {d : Dims} {fs : List Feature} {rs : List InvalidReason}

/-- What a builder says of itself is what comes of it: it is built if it does not call itself
invalid, and otherwise refused for the reasons that it gives. -/
def Agrees [Memory] (b : GridBuilder) : Prop :=
  (b.invalid? = none ↔ ∃ g, b.build = .ok g) ∧
    ∀ rs, b.invalid? = some rs → b.build = .error (.invalid rs)

/-- All features are on the grid, but there can be none: an agent is on a wall, or two agents share
a cell. -/
def Silent (d : Dims) (fs : List Feature) : Prop := ¬Outside d fs ∧ (OnWall fs ∨ Shared fs)

theorem invalid?_eq_some : b.invalid? = some rs ↔ b.reasons ≠ [] ∧ b.reasons = rs := by
  unfold invalid?
  split <;> simp_all

/-- The reasons that a builder gives are those for which it is refused. -/
theorem build_of_invalid?_eq_some [Memory] (h : b.invalid? = some rs) :
    b.build = .error (.invalid rs) := by
  obtain ⟨hne, rfl⟩ := invalid?_eq_some.mp h
  rw [build, if_pos hne]

theorem reasons_addAll (d : Dims) (fs : List Feature) :
    Outside d fs ∧ ((empty d).addAll fs).reasons = [.featureOutOfBounds] ∨
      ¬Outside d fs ∧ ((empty d).addAll fs).reasons = [] := by
  by_cases hout : Outside d fs
  · obtain ⟨taken, f, rest, rfl, hin, hf⟩ := exists_first_outside hout
    exact Or.inl ⟨hout, ((holds_empty d).addAll_outside hin hf rest).2⟩
  · exact Or.inr ⟨hout, ((holds_empty d).addAll (not_outside.mp hout)).reasons⟩

/-- A builder calls itself invalid just if a feature has been outside the grid, and for no other
reason. -/
theorem invalid?_addAll_eq_some : ((empty d).addAll fs).invalid? = some rs ↔
    Outside d fs ∧ rs = [.featureOutOfBounds] := by
  rw [invalid?_eq_some]
  rcases reasons_addAll d fs with ⟨hout, hreasons⟩ | ⟨hin, hreasons⟩
  · simp [hreasons, hout, eq_comm]
  · simp [hreasons, hin]

theorem invalid?_addAll_eq_none : ((empty d).addAll fs).invalid? = none ↔ ¬Outside d fs := by
  simp [Option.eq_none_iff_forall_ne_some, invalid?_addAll_eq_some]

/-- Features on the grid are built just if the builder is not silent about a fault. -/
theorem exists_build_eq_ok [Memory] (hfits : Fits d.size) :
    (∃ g, ((empty d).addAll fs).build = .ok g) ↔ ¬Outside d fs ∧ ¬Silent d fs := by
  have houtcome := outcome_of_features hfits fs
  constructor
  · rintro ⟨g, hg⟩
    rw [hg] at houtcome
    cases houtcome with
    | built hin hfree hapart _ => exact ⟨hin, fun h => h.2.elim hfree hapart⟩
  · rintro ⟨hin, hsilent⟩
    cases hbuild : ((empty d).addAll fs).build with
    | ok g => exact ⟨g, rfl⟩
    | error e =>
      rw [hbuild] at houtcome
      cases houtcome with
      | outside hout => exact absurd hout hin
      | onWall _ hwall => exact absurd ⟨hin, Or.inl hwall⟩ hsilent
      | shared _ _ hshared => exact absurd ⟨hin, Or.inr hshared⟩ hsilent

/-- Where a builder is silent, it is refused for an agent on a wall before it is for a defect. -/
theorem build_of_silent [Memory] (hfits : Fits d.size) (h : Silent d fs) :
    OnWall fs ∧ ((empty d).addAll fs).build = .error (.invalid [.agentOnWall]) ∨
      ¬OnWall fs ∧ ∃ e, ((empty d).addAll fs).build = .error (.invalid [.defect e]) ∧
        ∀ g : Graph, g.size = d.width * d.height →
          Problem.ofAgents g (numbered d fs) = .error e := by
  have houtcome := outcome_of_features hfits fs
  generalize ((empty d).addAll fs).build = r at houtcome
  cases houtcome with
  | outside hout => exact absurd hout h.1
  | onWall _ hwall => exact Or.inl ⟨hwall, rfl⟩
  | shared _ hfree _ he => exact Or.inr ⟨hfree, _, rfl, he⟩
  | built _ hfree hapart _ => exact absurd h.2 (not_or.mpr ⟨hfree, hapart⟩)

/-- A builder that gives reasons is refused for them, and one that is built has none to give. The
two agree exactly where the builder is not silent; where it is, it calls itself valid and is
refused. -/
theorem validity_exact [Memory] (hfits : Fits d.size) (fs : List Feature) :
    (∀ rs, ((empty d).addAll fs).invalid? = some rs ↔
      Outside d fs ∧ rs = [.featureOutOfBounds]) ∧
    (∀ rs, ((empty d).addAll fs).invalid? = some rs →
      ((empty d).addAll fs).build = .error (.invalid rs)) ∧
    (∀ g, ((empty d).addAll fs).build = .ok g → ((empty d).addAll fs).invalid? = none) ∧
    (((empty d).addAll fs).Agrees ↔ ¬Silent d fs) ∧
    (Silent d fs → ((empty d).addAll fs).invalid? = none ∧
      (OnWall fs ∧ ((empty d).addAll fs).build = .error (.invalid [.agentOnWall]) ∨
        ¬OnWall fs ∧ ∃ e, ((empty d).addAll fs).build = .error (.invalid [.defect e]) ∧
          ∀ g : Graph, g.size = d.width * d.height →
            Problem.ofAgents g (numbered d fs) = .error e)) := by
  have hagrees : ((empty d).addAll fs).Agrees ↔ ¬Silent d fs := by
    rw [Agrees, exists_build_eq_ok hfits, invalid?_addAll_eq_none,
      and_iff_left fun rs => build_of_invalid?_eq_some]
    constructor
    · intro hboth hsilent
      exact (hboth.mp hsilent.1).2 hsilent
    · intro hloud
      exact ⟨fun hin => ⟨hin, hloud⟩, And.left⟩
  refine ⟨fun rs => invalid?_addAll_eq_some, fun rs => build_of_invalid?_eq_some, fun g hg => ?_,
    hagrees, fun h => ⟨invalid?_addAll_eq_none.mpr h.1, build_of_silent hfits h⟩⟩
  exact invalid?_addAll_eq_none.mpr ((exists_build_eq_ok hfits).mp ⟨g, hg⟩).1

/-- A wall, and an agent that starts on it. -/
def walledIn : List Feature := [.wall ⟨1, 1⟩, .agent ⟨1, 1⟩ ⟨0, 0⟩]

theorem silent_walledIn : Silent (.square 4 (by decide)) walledIn :=
  ⟨not_outside.mpr (by decide), Or.inl ⟨⟨1, 1⟩, ⟨0, 0⟩, by decide, by decide⟩⟩

section

attribute [local instance] Memory.ample

/-- The builder calls itself valid and is refused. The one that is told of a start outside the grid
says so. -/
theorem validity_exact_walledIn : Fits (Dims.square 4 (by decide)).size ∧
    Silent (.square 4 (by decide)) walledIn ∧ (default.addAll walledIn).invalid? = none ∧
    (OnWall walledIn ∧ (default.addAll walledIn).build = .error (.invalid [.agentOnWall]) ∨
      ¬OnWall walledIn ∧ ∃ e, (default.addAll walledIn).build = .error (.invalid [.defect e]) ∧
        ∀ g : Graph, g.size = 4 * 4 →
          Problem.ofAgents g (numbered (.square 4 (by decide)) walledIn) = .error e) ∧
    (default.addAll [.agent ⟨4, 0⟩ ⟨0, 0⟩]).invalid? = some [.featureOutOfBounds] ∧
    (default.addAll [.agent ⟨4, 0⟩ ⟨0, 0⟩]).build = .error (.invalid [.featureOutOfBounds]) := by
  have hfits : Fits (Dims.square 4 (by decide)).size := by decide
  obtain ⟨hnone, hrefused⟩ := (validity_exact hfits walledIn).2.2.2.2 silent_walledIn
  have hsome : (default.addAll [.agent ⟨4, 0⟩ ⟨0, 0⟩]).invalid? = some [.featureOutOfBounds] := by
    decide
  exact ⟨hfits, silent_walledIn, hnone, hrefused, hsome,
    (validity_exact hfits [.agent ⟨4, 0⟩ ⟨0, 0⟩]).2.1 _ hsome⟩

/-- What a builder says of itself can differ from what comes of it. -/
theorem not_agrees_walledIn : ∃ (d : Dims) (fs : List Feature), Fits d.size ∧
    ((empty d).addAll fs).invalid? = none ∧ (∀ g, ((empty d).addAll fs).build ≠ .ok g) ∧
    ¬((empty d).addAll fs).Agrees := by
  have hnone : ((empty (.square 4 (by decide))).addAll walledIn).invalid? = none := by decide
  have hrefused : ((empty (.square 4 (by decide))).addAll walledIn).build =
      .error (.invalid [.agentOnWall]) := rfl
  have hunbuilt : ∀ g, ((empty (.square 4 (by decide))).addAll walledIn).build ≠ .ok g := by
    intro g hg
    rw [hrefused] at hg
    cases hg
  refine ⟨_, walledIn, by decide, hnone, hunbuilt, fun h => ?_⟩
  obtain ⟨g, hg⟩ := h.1.mp hnone
  exact hunbuilt g hg

end

end AgentPaths.GridBuilder
