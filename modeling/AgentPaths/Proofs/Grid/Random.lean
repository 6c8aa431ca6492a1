import AgentPaths.Grid.Random
import AgentPaths.Proofs.Grid.Outcome
import AgentPaths.Random.Shuffle

/-!
Random grids are valid whatever is drawn. Walls and agents get different cells because they come
from different parts of one shuffle, and a second shuffle of the free cells leaves the goals among
them.
-/
namespace AgentPaths.GridBuilder

variable {b : GridBuilder} {d : Dims} {cells wallCount agentCount side p q : Nat}

/-- Cells `ws` for walls and cells from `is` to `gs` for agents, as they are drawn: the walls apart
from the ends of the agents, and no two starts or two goals the same. -/
structure Drawn (cells wallCount agentCount : Nat) (ws is gs : List Nat) : Prop where
  inside : ∀ v ∈ ws ++ is ++ gs, v < cells
  walls : ws.length = wallCount
  initials : is.length = agentCount
  goals : gs.length = agentCount
  nodup : ws.Nodup ∧ is.Nodup ∧ gs.Nodup
  free : ∀ v ∈ ws, v ∉ is ∧ v ∉ gs

/-- Parts of one order of all cells, and of another order of those that are not walls. -/
theorem drawn_of_perm {nodes shuffled : List Nat} (hnodes : nodes.Perm (List.range cells))
    (hfree : shuffled.Perm (nodes.drop wallCount)) (hroom : wallCount + agentCount < cells) :
    Drawn cells wallCount agentCount (nodes.take wallCount)
      ((nodes.drop wallCount).take agentCount) (shuffled.take agentCount) := by
  have hnodup : nodes.Nodup := hnodes.nodup_iff.mpr List.nodup_range
  have hlength : nodes.length = cells := by rw [hnodes.length_eq, List.length_range]
  have hdrop : (nodes.drop wallCount).length = cells - wallCount := by
    rw [List.length_drop, hlength]
  have hshuffled : shuffled.length = cells - wallCount := hfree.length_eq.trans hdrop
  have hlt {v : Nat} (hv : v ∈ nodes) : v < cells := List.mem_range.mp (hnodes.mem_iff.mp hv)
  have hinitial {v : Nat} (hv : v ∈ (nodes.drop wallCount).take agentCount) :
      v ∈ nodes.drop wallCount := List.mem_of_mem_take hv
  have hgoal {v : Nat} (hv : v ∈ shuffled.take agentCount) : v ∈ nodes.drop wallCount :=
    hfree.mem_iff.mp (List.mem_of_mem_take hv)
  have hapart := List.disjoint_take_drop hnodup (Nat.le_refl wallCount)
  constructor
  · intro v hv
    rcases List.mem_append.mp hv with hv | hv
    · rcases List.mem_append.mp hv with hv | hv
      · exact hlt (List.mem_of_mem_take hv)
      · exact hlt (List.mem_of_mem_drop (hinitial hv))
    · exact hlt (List.mem_of_mem_drop (hgoal hv))
  · rw [List.length_take, hlength]
    omega
  · rw [List.length_take, hdrop]
    omega
  · rw [List.length_take, hshuffled]
    omega
  · have hrest : (nodes.drop wallCount).Nodup := hnodup.sublist (List.drop_sublist _ _)
    exact ⟨hnodup.sublist (List.take_sublist _ _), hrest.sublist (List.take_sublist _ _),
      (hfree.nodup_iff.mpr hrest).sublist (List.take_sublist _ _)⟩
  · intro v hv
    exact ⟨fun hi => hapart hv (hinitial hi), fun hg => hapart hv (hgoal hg)⟩

/-- What a random grid is told: its walls first, and then its agents. -/
def features (d : Dims) (ws is gs : List Nat) : List Feature :=
  ws.map (fun v => .wall (d.cell v)) ++
    (is.zip gs).map fun ends => .agent (d.cell ends.1) (d.cell ends.2)

theorem dims_add (b : GridBuilder) (f : Feature) : (b.add f).dims = b.dims := by
  have htake : (b.take f).dims = b.dims := by
    cases f with
    | agent initial goal => rfl
    | wall c =>
      unfold take
      dsimp only
      split <;> rfl
    | cut c c' =>
      unfold take
      dsimp only
      split <;> rfl
  rw [add_eq_place, place]
  split
  · rfl
  · split
    · exact htake
    · rfl

theorem dims_addAll (b : GridBuilder) (fs : List Feature) : (b.addAll fs).dims = b.dims := by
  induction fs generalizing b with
  | nil => rfl
  | cons f fs ih => exact (ih (b.add f)).trans (dims_add b f)

/-- Features that are made with the sizes of the grid, while they are added. -/
theorem foldl_add {α : Type} (feature : Dims → α → Feature) (l : List α) (b : GridBuilder) :
    l.foldl (fun b x => b.add (feature b.dims x)) b = b.addAll (l.map (feature b.dims)) := by
  induction l generalizing b with
  | nil => rfl
  | cons x l ih =>
    rw [List.foldl_cons, ih, dims_add]
    rfl

theorem foldl_addWall (vs : List Nat) (b : GridBuilder) :
    vs.foldl (fun b v => b.addWall (b.dims.cell v)) b =
      b.addAll (vs.map fun v => .wall (b.dims.cell v)) :=
  foldl_add (fun d v => .wall (d.cell v)) vs b

theorem foldl_addAgent (ends : List (Nat × Nat)) (b : GridBuilder) :
    ends.foldl (fun b (i, g) => b.addAgent (b.dims.cell i) (b.dims.cell g)) b =
      b.addAll (ends.map fun e => .agent (b.dims.cell e.1) (b.dims.cell e.2)) :=
  foldl_add (fun d (e : Nat × Nat) => .agent (d.cell e.1) (d.cell e.2)) ends b

/-- A valid builder with so many walls and so many agents. No two agents start or finish in the same
cell, and none does so on a wall. -/
structure Populated (b : GridBuilder) (d : Dims) (wallCount agentCount : Nat) : Prop where
  dims : b.dims = d
  valid : b.invalid? = none
  wallCount : b.walls.length = wallCount
  agentCount : b.agents.length = agentCount
  walls : b.walls.Nodup
  initials : (b.agents.map Prod.fst).Nodup
  goals : (b.agents.map Prod.snd).Nodup
  free : ∀ a ∈ b.agents, a.1 ∉ b.walls ∧ a.2 ∉ b.walls
  inside : (∀ c ∈ b.walls, d.Contains c) ∧ ∀ a ∈ b.agents, d.Contains a.1 ∧ d.Contains a.2

theorem cell_injective (d : Dims) : Function.Injective d.cell :=
  Function.LeftInverse.injective d.node_cell

section Drawn

variable {ws is gs : List Nat}

theorem mem_features_wall {c : Cell} :
    .wall c ∈ features d ws is gs ↔ ∃ v ∈ ws, d.cell v = c := by
  simp [features]

theorem travels_features :
    travels (features d ws is gs) = (is.zip gs).map fun ends => (d.cell ends.1, d.cell ends.2) := by
  simp [travels, features, List.filterMap_append, List.filterMap_map, Feature.agent?,
    Function.comp_def]

theorem Drawn.inside_features (h : Drawn d.size wallCount agentCount ws is gs) :
    ∀ f ∈ features d ws is gs, f.Inside d := by
  intro f hf
  rcases List.mem_append.mp hf with hf | hf
  · obtain ⟨v, hv, rfl⟩ := List.mem_map.mp hf
    have hcell := Dims.contains_cell.mpr (h.inside v (by simp [hv]))
    simpa [Feature.Inside, Feature.cells] using hcell
  · obtain ⟨⟨i, g⟩, hends, rfl⟩ := List.mem_map.mp hf
    obtain ⟨hi, hg⟩ := List.of_mem_zip hends
    have hinitial := Dims.contains_cell.mpr (h.inside i (by simp [hi]))
    have hgoal := Dims.contains_cell.mpr (h.inside g (by simp [hg]))
    simpa [Feature.Inside, Feature.cells] using ⟨hinitial, hgoal⟩

theorem Drawn.populated (h : Drawn d.size wallCount agentCount ws is gs) :
    Populated ((empty d).addAll (features d ws is gs)) d wallCount agentCount := by
  have hin := h.inside_features
  have hholds : ((empty d).addAll (features d ws is gs)).Holds d (features d ws is gs) :=
    (holds_empty d).addAll hin
  generalize (empty d).addAll (features d ws is gs) = b at hholds ⊢
  have hwalls (c : Cell) : c ∈ b.walls ↔ ∃ v ∈ ws, d.cell v = c :=
    (hholds.walls c).trans mem_features_wall
  have hagents : b.agents = (is.zip gs).map fun ends => (d.cell ends.1, d.cell ends.2) :=
    hholds.agents.trans travels_features
  have hlength : is.length = gs.length := h.initials.trans h.goals.symm
  have hperm : b.walls.Perm (ws.map d.cell) := by
    rw [List.perm_ext_iff_of_nodup hholds.nodup (h.nodup.1.map (cell_injective d))]
    intro c
    rw [hwalls, List.mem_map]
  have hinitials : b.agents.map Prod.fst = is.map d.cell := calc
    b.agents.map Prod.fst = ((is.zip gs).map Prod.fst).map d.cell := by simp [hagents]
    _ = is.map d.cell := by rw [List.map_fst_zip (Nat.le_of_eq hlength)]
  have hgoals : b.agents.map Prod.snd = gs.map d.cell := calc
    b.agents.map Prod.snd = ((is.zip gs).map Prod.snd).map d.cell := by simp [hagents]
    _ = gs.map d.cell := by rw [List.map_snd_zip (Nat.le_of_eq hlength.symm)]
  constructor
  · exact hholds.dims
  · exact if_pos hholds.reasons
  · rw [hperm.length_eq, List.length_map, h.walls]
  · rw [← List.length_map Prod.fst, hinitials, List.length_map, h.initials]
  · exact hholds.nodup
  · exact hinitials ▸ h.nodup.2.1.map (cell_injective d)
  · exact hgoals ▸ h.nodup.2.2.map (cell_injective d)
  · intro a ha
    have hi : a.1 ∈ is.map d.cell := hinitials ▸ List.mem_map_of_mem ha
    have hg : a.2 ∈ gs.map d.cell := hgoals ▸ List.mem_map_of_mem ha
    obtain ⟨i, hi, hai⟩ := List.mem_map.mp hi
    obtain ⟨g, hg, hag⟩ := List.mem_map.mp hg
    rw [hwalls, hwalls, ← hai, ← hag]
    constructor
    · intro hwall
      obtain ⟨v, hv, hcell⟩ := hwall
      exact (h.free v hv).1 (cell_injective d hcell ▸ hi)
    · intro hwall
      obtain ⟨v, hv, hcell⟩ := hwall
      exact (h.free v hv).2 (cell_injective d hcell ▸ hg)
  · constructor
    · intro c hc
      exact hin _ ((hholds.walls c).mp hc) c (by simp [Feature.cells])
    · intro a ha
      exact contains_of_mem_travels hin (hholds.agents ▸ ha)

/-- A builder that is populated is built wherever there can be a graph of its cells. -/
theorem Populated.exists_build [Memory] (h : Populated b d wallCount agentCount) {fs : List Feature}
    (hholds : b.Holds d fs) (hin : ∀ f ∈ fs, f.Inside d) (hfits : Fits d.size) :
    ∃ g, b.build = .ok g := by
  have houtcome := hholds.outcome hfits hin
  generalize b.build = result at houtcome ⊢
  cases houtcome with
  | outside hout => exact absurd hout (not_outside.mpr hin)
  | onWall _ hwall =>
    obtain ⟨initial, goal, hagent, hwall⟩ := hwall
    have hfree := h.free (initial, goal) (hholds.agents ▸ mem_travels.mpr hagent)
    rw [hholds.walls, hholds.walls] at hfree
    exact absurd hwall (not_or.mpr hfree)
  | shared _ _ hshared _ =>
    obtain ⟨i, j, a, a', hij, ha, ha', hsame⟩ := hshared
    rw [← hholds.agents] at ha ha'
    exact absurd hsame (not_or.mpr ⟨ne_of_nodup_map h.initials hij ha ha',
      ne_of_nodup_map h.goals hij ha ha'⟩)
  | built => exact ⟨_, rfl⟩

/-- A builder that is populated fails only for the size of its grid. -/
theorem Populated.build_of_lack [Memory] (h : Populated b d wallCount agentCount) {misuse : Misuse}
    (hlack : ((lack? d.size).or <|
      if Fits d.size then none else some (.graphTooLarge d.size)) = some misuse) :
    b.build = .error (.misuse misuse) := by
  have hreasons : b.reasons = [] := by
    have hvalid := h.valid
    unfold invalid? at hvalid
    split at hvalid
    next hnone => exact hnone
    next => cases hvalid
  have hfree : ∀ a ∈ b.agents, (b.walls.contains a.1 || b.walls.contains a.2) ≠ true := by
    intro a ha
    simp [h.free a ha]
  rw [build, if_neg (not_not_intro hreasons), h.dims]
  cases hmap : lack? d.size with
  | some found =>
    rw [hmap] at hlack
    cases hlack
    rfl
  | none =>
    rw [hmap, Option.none_or] at hlack
    split at hlack
    next => cases hlack
    next hfits =>
      cases hlack
      dsimp only
      rw [List.any_eq_false.mpr hfree, if_neg (by decide), if_pos hfits]

end Drawn

/-- The builder of a random grid that is not too crowded. -/
theorem random_eq_ok [Memory] {σ : Type} {shuffle : List Nat → σ → List Nat × σ}
    (hshuffle : ∀ l state, (shuffle l state).1.Perm l) {hside : 0 < side} (state : σ)
    (hroom : ¬Crowded (side * side) p q) (hlist : Memory.lack? (8 * (side * side)) = none) :
    ∃ ws is gs,
      Drawn (side * side) (share (side * side) p) (share (side * side) q) ws is gs ∧
      random shuffle side hside p q state =
        .ok ((empty (.square side hside)).addAll (features (.square side hside) ws is gs)) := by
  have hcount : share (side * side) p + share (side * side) q < side * side := by
    simp only [Crowded, not_or, Nat.not_le] at hroom
    exact hroom.2.2.2
  have hnodes := hshuffle (List.range (side * side)) state
  rw [random, if_neg hroom, hlist]
  dsimp only
  generalize shuffle (List.range (side * side)) state = first at hnodes ⊢
  obtain ⟨nodes, state'⟩ := first
  dsimp only
  have hfree := hshuffle (nodes.drop (share (side * side) p)) state'
  generalize shuffle (nodes.drop (share (side * side) p)) state' = second at hfree ⊢
  obtain ⟨shuffled, state''⟩ := second
  refine ⟨_, _, _, drawn_of_perm hnodes hfree hcount, ?_⟩
  rw [foldl_addWall, foldl_addAgent, dims_addAll, ← addAll_append]
  rfl

/-- Making a random grid is building what has been drawn, though nothing is drawn where the grid
would be too large. -/
theorem random_eq_build [Memory] {σ : Type} {shuffle : List Nat → σ → List Nat × σ}
    (hshuffle : ∀ l state, (shuffle l state).1.Perm l) (hside : 0 < side) (state : σ) :
    Grid.random shuffle side hside p q state =
      match random shuffle side hside p q state with
      | .error m => .error (.misuse m)
      | .ok b => b.build := by
  unfold Grid.random
  dsimp only
  cases hlack : (if Crowded (side * side) p q then none else Grid.lack? (side * side)) with
  | none => rfl
  | some misuse =>
    have hroom : ¬Crowded (side * side) p q := by
      intro hcrowded
      rw [if_pos hcrowded] at hlack
      cases hlack
    rw [if_neg hroom, Grid.lack?] at hlack
    cases hlist : Memory.lack? (8 * (side * side)) with
    | some found =>
      rw [hlist] at hlack
      cases hlack
      rw [random, if_neg hroom, hlist]
    | none =>
      rw [hlist, Option.none_or] at hlack
      obtain ⟨ws, is, gs, hdrawn, hrandom⟩ := random_eq_ok hshuffle state hroom hlist
      have hpopulated : Populated _ (.square side hside) _ _ := Drawn.populated hdrawn
      rw [hrandom]
      exact (hpopulated.build_of_lack hlack).symm

theorem crowded_iff {n : Nat} : Crowded n p q ↔
    wordBound ≤ n ∨ 100 < p ∨ 100 < q ∨ n ≤ n * p / 100 + n * q / 100 := by
  simp only [Crowded, share_eq]

/-- Counting these hundredths of `n` cells stays within the words. -/
structure CountFits (n percent : Nat) : Prop where
  hundreds : n / 100 * percent < wordBound
  rest : n % 100 * percent < wordBound
  sum : n / 100 * percent + n % 100 * percent / 100 < wordBound

theorem countFits {n percent : Nat} (hn : n < wordBound) (hpercent : percent ≤ 100) :
    CountFits n percent := by
  have hmul (k : Nat) : k * percent ≤ k * 100 := Nat.mul_le_mul_left k hpercent
  have hhundreds := hmul (n / 100)
  have hrest := hmul (n % 100)
  constructor
  · omega
  · -- the number of cells may be smaller than this product
    show n % 100 * percent < 0x10000000000000000
    omega
  · omega

/-- A random grid is too crowded, or it is valid with the walls and the agents that have been asked
for, whatever the shuffles are; only if its cells cannot be listed there is no builder at all. -/
theorem random_valid [Memory] {σ : Type} (shuffle : List Nat → σ → List Nat × σ)
    (hshuffle : ∀ l state, (shuffle l state).1.Perm l) (side : Nat) (hside : 0 < side) (p q : Nat)
    (state : σ) :
    ((wordBound ≤ side * side ∨ 100 < p ∨ 100 < q ∨
        side * side ≤ side * side * p / 100 + side * side * q / 100) →
      ∃ b, random shuffle side hside p q state = .ok b ∧ b.invalid? = some [.tooCrowded]) ∧
    (side * side < wordBound → p ≤ 100 → q ≤ 100 →
        side * side * p / 100 + side * side * q / 100 < side * side →
      CountFits (side * side) p ∧ CountFits (side * side) q ∧
      (Memory.lack? (8 * (side * side)) = none → ∃ b, random shuffle side hside p q state = .ok b ∧
        Populated b (.square side hside) (side * side * p / 100) (side * side * q / 100) ∧
        (Fits (side * side) → ∃ g, b.build = .ok g)) ∧
      ∀ misuse, Memory.lack? (8 * (side * side)) = some misuse →
        random shuffle side hside p q state = .error misuse) := by
  rw [← crowded_iff]
  constructor
  · intro hcrowded
    rw [random, if_pos hcrowded]
    exact ⟨_, rfl, rfl⟩
  · intro hword hp hq hcount
    have hroom : ¬Crowded (side * side) p q := by
      rw [crowded_iff]
      omega
    refine ⟨countFits hword hp, countFits hword hq, ?_, ?_⟩
    · intro hlist
      obtain ⟨ws, is, gs, hdrawn, hrandom⟩ := random_eq_ok hshuffle state hroom hlist
      rw [share_eq, share_eq] at hdrawn
      have hpopulated : Populated _ (.square side hside) _ _ := Drawn.populated hdrawn
      refine ⟨_, hrandom, hpopulated, fun hfits => ?_⟩
      exact hpopulated.exists_build ((holds_empty _).addAll (Drawn.inside_features hdrawn))
        (Drawn.inside_features hdrawn) hfits
    · intro misuse hlack
      rw [random, if_neg hroom, hlack]

section

attribute [local instance] Memory.ample

/-- A quarter of nine cells are walls and a third of them have agents, as a shuffle has it. -/
theorem random_valid_shuffled : (∀ (l : List Nat) g, (Shuffle.shuffle l g).1.Perm l) ∧
    ∃ b, random Shuffle.shuffle 3 (by decide) 25 34 ⟨7⟩ = .ok b ∧
      Populated b (.square 3 (by decide)) 2 3 ∧ ∃ g, b.build = .ok g := by
  refine ⟨Shuffle.shuffle_perm, ?_⟩
  have hvalid := (random_valid Shuffle.shuffle Shuffle.shuffle_perm 3 (by decide) 25 34 ⟨7⟩).2
    (by decide) (by decide) (by decide) (by decide)
  obtain ⟨b, hb, hpopulated, hbuild⟩ := hvalid.2.2.1 (by decide)
  exact ⟨b, hb, hpopulated, hbuild (by decide)⟩

/-- The number of cells of a large square fits into a word, but the cells cannot be listed. -/
theorem random_tooLarge_square : ∃ (side : Nat) (hside : 0 < side), side * side < wordBound ∧
    side * side * 0 / 100 + side * side * 0 / 100 < side * side ∧
    random Shuffle.shuffle side hside 0 0 ⟨0⟩ = .error .tooLarge := by
  refine ⟨halfBound - 1, by decide, by decide, by decide, ?_⟩
  have hlack : Memory.lack? (8 * ((halfBound - 1) * (halfBound - 1))) = some .tooLarge := by decide
  rw [random, if_neg (by decide), hlack]

end

end AgentPaths.GridBuilder
