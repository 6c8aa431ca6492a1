import AgentPaths.Grid.Builder
import Mathlib.Data.List.Basic

/-!
The calls of a grid builder, and what they leave in it. As long as all features lie on the grid, the
builder holds the features that it has been given; the first one outside makes it invalid, and
nothing changes it after that.
-/
namespace AgentPaths

/-- What a builder is told: where an agent travels, where a wall is, what is not connected. -/
inductive Feature where
  | agent (initial goal : Cell)
  | wall (c : Cell)
  | cut (c d : Cell)
deriving DecidableEq

namespace Feature

/-- The cells that a feature names. -/
def cells : Feature → List Cell
  | agent initial goal => [initial, goal]
  | wall c => [c]
  | cut c d => [c, d]

def agent? : Feature → Option (Cell × Cell)
  | agent initial goal => some (initial, goal)
  | wall _ => none
  | cut _ _ => none

/-- All cells of a feature are on the grid. -/
def Inside (d : Dims) (f : Feature) : Prop := ∀ c ∈ f.cells, d.Contains c

instance (d : Dims) (f : Feature) : Decidable (f.Inside d) :=
  inferInstanceAs (Decidable (∀ _ ∈ _, _))

end Feature

/-- The agents among the features, in order. -/
def travels (fs : List Feature) : List (Cell × Cell) := fs.filterMap Feature.agent?

namespace GridBuilder

def add (b : GridBuilder) : Feature → GridBuilder
  | .agent initial goal => b.addAgent initial goal
  | .wall c => b.addWall c
  | .cut c d => b.disconnect c d

/-- The builder after the calls that add these features one after the other. -/
def addAll (b : GridBuilder) (fs : List Feature) : GridBuilder := fs.foldl add b

/-- A builder that has taken these features, which are all on its grid. A cut of cells that are not
next to each other leaves nothing behind. -/
structure Holds (b : GridBuilder) (d : Dims) (fs : List Feature) : Prop where
  dims : b.dims = d
  reasons : b.reasons = []
  agents : b.agents = travels fs
  walls : ∀ c, c ∈ b.walls ↔ .wall c ∈ fs
  nodup : b.walls.Nodup
  cuts : ∀ c c', (c, c') ∈ b.cuts ↔ .cut c c' ∈ fs ∧ (Step.between? c c').isSome = true

variable {b : GridBuilder} {d : Dims} {fs gs : List Feature} {f : Feature}

theorem holds_empty (d : Dims) : (empty d).Holds d [] where
  dims := rfl
  reasons := rfl
  agents := rfl
  walls c := by simp [empty]
  nodup := List.nodup_nil
  cuts c c' := by simp [empty]

theorem addAll_append (b : GridBuilder) (fs gs : List Feature) :
    b.addAll (fs ++ gs) = (b.addAll fs).addAll gs := List.foldl_append

/-- An invalid builder stays as it is. -/
theorem addAll_of_invalid (h : b.reasons ≠ []) (fs : List Feature) : b.addAll fs = b := by
  induction fs with
  | nil => rfl
  | cons f fs ih =>
    have hadd : b.add f = b := by
      cases f <;> exact if_pos h
    show (b.add f).addAll fs = b
    rw [hadd, ih]

/-- What a valid builder makes of a feature on its grid. -/
def take (b : GridBuilder) : Feature → GridBuilder
  | .agent initial goal => { b with agents := b.agents ++ [(initial, goal)] }
  | .wall c => if c ∈ b.walls then b else { b with walls := c :: b.walls }
  | .cut c d => if (Step.between? c d).isSome then { b with cuts := (c, d) :: b.cuts } else b

theorem add_eq_place (b : GridBuilder) (f : Feature) : b.add f = b.place f.cells (·.take f) := by
  cases f <;> rfl

theorem Holds.take (h : b.Holds d fs) (f : Feature) : (b.take f).Holds d (fs ++ [f]) := by
  cases f with
  | agent initial goal =>
    refine ⟨h.dims, h.reasons, ?_, ?_, h.nodup, ?_⟩
    · simp [GridBuilder.take, travels, Feature.agent?, h.agents]
    · simp [GridBuilder.take, h.walls]
    · simp [GridBuilder.take, h.cuts]
  | wall c =>
    have hagents : b.agents = travels (fs ++ [.wall c]) := by
      simp [travels, Feature.agent?, h.agents]
    have hcuts (e e' : Cell) : (e, e') ∈ b.cuts ↔
        .cut e e' ∈ fs ++ [.wall c] ∧ (Step.between? e e').isSome = true := by
      simp [h.cuts]
    show (if c ∈ b.walls then b else { b with walls := c :: b.walls }).Holds d _
    split
    next hc =>
      refine ⟨h.dims, h.reasons, hagents, ?_, h.nodup, hcuts⟩
      intro e
      rw [h.walls] at hc ⊢
      simp only [List.mem_append, List.mem_singleton, Feature.wall.injEq]
      exact ⟨Or.inl, fun he => he.elim id fun he => he ▸ hc⟩
    next hc =>
      refine ⟨h.dims, h.reasons, hagents, ?_, List.nodup_cons.mpr ⟨hc, h.nodup⟩, hcuts⟩
      simp [h.walls, or_comm]
  | cut c c' =>
    have hagents : b.agents = travels (fs ++ [.cut c c']) := by
      simp [travels, Feature.agent?, h.agents]
    have hwalls (e : Cell) : e ∈ b.walls ↔ .wall e ∈ fs ++ [.cut c c'] := by
      simp [h.walls]
    show (if (Step.between? c c').isSome then { b with cuts := (c, c') :: b.cuts } else b).Holds d _
    split
    next hsome =>
      refine ⟨h.dims, h.reasons, hagents, hwalls, h.nodup, ?_⟩
      intro e e'
      by_cases he : e = c ∧ e' = c'
      · simp [he, hsome]
      · simp [he, h.cuts]
    next hnone =>
      refine ⟨h.dims, h.reasons, hagents, hwalls, h.nodup, ?_⟩
      intro e e'
      by_cases he : e = c ∧ e' = c'
      · simp [he, hnone, h.cuts]
      · simp [he, h.cuts]

/-- A feature on the grid is taken. -/
theorem Holds.add (h : b.Holds d fs) (hin : f.Inside d) : (b.add f).Holds d (fs ++ [f]) := by
  have hplace : b.place f.cells (·.take f) = b.take f := by
    rw [place, if_neg (not_not_intro h.reasons), h.dims]
    exact if_pos hin
  rw [add_eq_place, hplace]
  exact h.take f

/-- The first feature outside the grid makes the builder invalid. -/
theorem Holds.add_outside (h : b.Holds d fs) (hout : ¬f.Inside d) :
    (b.add f).reasons = [.featureOutOfBounds] := by
  have hplace : b.place f.cells (·.take f) =
      { b with reasons := b.reasons ++ [.featureOutOfBounds] } := by
    rw [place, if_neg (not_not_intro h.reasons), h.dims]
    exact if_neg hout
  rw [add_eq_place, hplace, h.reasons, List.nil_append]

/-- Features on the grid are all taken. -/
theorem Holds.addAll (h : b.Holds d fs) (hin : ∀ f ∈ gs, f.Inside d) :
    (b.addAll gs).Holds d (fs ++ gs) := by
  induction gs generalizing b fs with
  | nil => simpa [GridBuilder.addAll] using h
  | cons g gs ih =>
    obtain ⟨hg, hgs⟩ := List.forall_mem_cons.mp hin
    rw [List.append_cons]
    exact ih (h.add hg) hgs

/-- Nothing that comes after the first feature outside the grid has an effect. -/
theorem Holds.addAll_outside (h : b.Holds d fs) (hin : ∀ f ∈ gs, f.Inside d)
    (hout : ¬f.Inside d) (rest : List Feature) :
    b.addAll (gs ++ f :: rest) = b.addAll (gs ++ [f]) ∧
      (b.addAll (gs ++ f :: rest)).reasons = [.featureOutOfBounds] := by
  have hinvalid : (b.addAll (gs ++ [f])).reasons = [.featureOutOfBounds] := by
    rw [addAll_append]
    exact (h.addAll hin).add_outside hout
  have hsame : b.addAll (gs ++ f :: rest) = b.addAll (gs ++ [f]) := by
    rw [List.append_cons, addAll_append, addAll_of_invalid (by simp [hinvalid])]
  exact ⟨hsame, hsame ▸ hinvalid⟩

end GridBuilder

end AgentPaths
