import AgentPaths.Proofs.Schedule.Checking
import AgentPaths.Proofs.Schedule.Decoding
import Mathlib.Data.List.Sigma

/-!
The checker lists the broken rules, each of them once. A path may leave the graph: the graph is then
not asked about the step, which follows none of its edges.
-/
namespace AgentPaths

/-- Parts without duplicates have none together if every entry names its part. -/
theorem nodup_flatMap_of_tag {ι κ α : Type} {l : List ι} {f : ι → List α} (name : ι → κ)
    (tag : α → κ) (hl : (l.map name).Nodup) (hparts : ∀ i ∈ l, (f i).Nodup)
    (htag : ∀ i ∈ l, ∀ x ∈ f i, tag x = name i) : (l.flatMap f).Nodup := by
  rw [List.nodup_flatMap]
  refine ⟨hparts, (List.pairwise_map.mp hl).imp_of_mem ?_⟩
  intro i j hi hj hne x hxi hxj
  exact hne ((htag i hi x hxi).symm.trans (htag j hj x hxj))

theorem Graph.edge_eq_true {g : Graph} {u v : Nat} :
    g.edge u v = .ok true ↔ g.hasEdge u v = true := by
  unfold edge
  split
  next => simp
  next hout =>
    simp only [reduceCtorEq, false_iff]
    exact fun he => hout (lt_of_hasEdge he)

/-- The agents whose doing a violation is. -/
def Violation.agents : Violation → List Nat
  | pathCount _ _ => []
  | unequalLength a _ _ => [a]
  | wrongStart a _ _ => [a]
  | wrongGoal a _ _ => [a]
  | missingEdge a _ _ _ => [a]
  | vertexConflict a b _ _ => [a, b]
  | swapConflict a b _ _ _ => [a, b]

/-- The time at which a violation occurs, other than those at an end. -/
def Violation.time? : Violation → Option Nat
  | missingEdge _ t _ _ => some t
  | vertexConflict _ _ t _ => some t
  | swapConflict _ _ t _ _ => some t
  | _ => none

namespace Schedule

variable {p : Problem} {m : Nat} {s : Schedule} {g : Graph} {x : Violation} {path : List Nat}

/-- The rules of a problem that a schedule of `m` steps breaks. -/
inductive Breaks (p : Problem) (m : Nat) (s : Schedule) : Violation → Prop
  | wrongStart {a : Nat} {agent : Agent} {u : Nat} : p.agents[a]? = some agent →
      s.position? a 0 = some u → u ≠ agent.initial → Breaks p m s (.wrongStart a agent.initial u)
  | wrongGoal {a : Nat} {agent : Agent} {u : Nat} : p.agents[a]? = some agent →
      s.position? a m = some u → u ≠ agent.goal → Breaks p m s (.wrongGoal a agent.goal u)
  | missingEdge {a t u v : Nat} : s.position? a t = some u → s.position? a (t + 1) = some v →
      u ≠ v → p.graph.edge u v ≠ .ok true → Breaks p m s (.missingEdge a t u v)
  | vertexConflict {a b t u : Nat} : a < b → s.position? a t = some u → s.position? b t = some u →
      Breaks p m s (.vertexConflict a b t u)
  | swapConflict {a b t u v : Nat} : a < b → u ≠ v → s.position? a t = some u →
      s.position? a (t + 1) = some v → s.position? b t = some v → s.position? b (t + 1) = some u →
      Breaks p m s (.swapConflict a b t u v)

/-- Whether a step needs an edge that the graph lacks. The graph is asked about its own nodes only,
and the others have no edges. -/
def lacksEdge (g : Graph) (u v : Nat) : Except Misuse Bool :=
  if u = v then .ok false
  else if g.size ≤ u ∨ g.size ≤ v then .ok true
  else (g.edge u v).map (!·)

/-- The steps of a path without an edge, where the graph is asked about one step after the other. -/
def askedMoves (g : Graph) (a : Nat) (path : List Nat) : Except Misuse (List Violation) := do
  let steps ← (path.zip path.tail).zipIdx.filterM fun ((u, v), _) => lacksEdge g u v
  return steps.map fun ((u, v), t) => .missingEdge a t u v

theorem lacksEdge_eq (g : Graph) (u v : Nat) :
    lacksEdge g u v = .ok (decide ¬(u = v ∨ g.hasEdge u v = true)) := by
  unfold lacksEdge
  split
  next heq => simp [heq]
  next hne =>
    split
    next hout =>
      have hnone : g.hasEdge u v = false := by
        rw [← Bool.not_eq_true]
        intro he
        have := Graph.lt_of_hasEdge he
        omega
      simp [hne, hnone]
    next hin =>
      have hlt : u < g.size ∧ v < g.size := by omega
      simp [Graph.edge, hlt, hne, Except.map]

/-- No step of a path is a misuse of the graph. -/
theorem askedMoves_eq (g : Graph) (a : Nat) (path : List Nat) :
    askedMoves g a path = .ok (moveViolations g a path) := by
  rw [askedMoves, filterM_eq_ok fun step _ => lacksEdge_eq g step.1.1 step.1.2]
  simp only [bind, Except.bind, pure, Except.pure, moveViolations, ← List.filterMap_eq_map,
    List.filterMap_filter]
  congr 2
  funext step
  by_cases he : step.1.1 = step.1.2 ∨ g.hasEdge step.1.1 step.1.2 = true <;> simp [he]

theorem nodup_moveViolations (g : Graph) (a : Nat) (path : List Nat) :
    (moveViolations g a path).Nodup := by
  refine (List.nodup_zipIdx_map_snd _).of_map.filterMap ?_
  intro step step' y hy hy'
  obtain ⟨⟨u, v⟩, t⟩ := step
  obtain ⟨⟨u', v'⟩, t'⟩ := step'
  simp only [Option.ite_none_left_eq_some, Option.some.injEq, Option.mem_def] at hy hy'
  cases hy.2.trans hy'.2.symm
  rfl

theorem nodup_ends {o : Option Nat} {q : Nat → Bool} {f : Nat → Violation} :
    ((o.toList.filter q).map f).Nodup := by
  cases o with
  | none => exact List.nodup_nil
  | some u => cases hu : q u <;> simp [hu]

theorem nodup_pathViolations (g : Graph) (a : Nat) (agent : Agent) (path : List Nat) :
    (pathViolations g a agent path).Nodup := by
  refine List.Nodup.append (List.Nodup.append nodup_ends nodup_ends ?_)
    (nodup_moveViolations g a path) ?_
  · intro x hstart hfinish
    obtain ⟨u, _, rfl⟩ := List.mem_map.mp hstart
    obtain ⟨v, _, he⟩ := List.mem_map.mp hfinish
    cases he
  · intro x hend hmove
    obtain ⟨t, u, v, _, _, _, rfl⟩ := mem_moveViolations.mp hmove
    rcases List.mem_append.mp hend with hstart | hfinish
    · obtain ⟨w, _, he⟩ := List.mem_map.mp hstart
      cases he
    · obtain ⟨w, _, he⟩ := List.mem_map.mp hfinish
      cases he

theorem agents_of_mem_pathViolations {a : Nat} {agent : Agent}
    (hx : x ∈ pathViolations g a agent path) : x.agents = [a] := by
  rcases mem_pathViolations.mp hx with ⟨u, _, _, rfl⟩ | ⟨u, _, _, rfl⟩ | hmove
  · rfl
  · rfl
  · obtain ⟨t, u, v, _, _, _, rfl⟩ := mem_moveViolations.mp hmove
    rfl

theorem nodup_conflictsAt (a b : Nat) (pathA pathB : Array Nat) (t : Nat) :
    (conflictsAt a b pathA pathB t).Nodup := by
  unfold conflictsAt
  cases pathA[t]? <;> cases pathB[t]? <;> cases pathA[t + 1]? <;> cases pathB[t + 1]? <;> grind

theorem tags_of_mem_conflictsAt {a b t : Nat} {pathA pathB : Array Nat}
    (hx : x ∈ conflictsAt a b pathA pathB t) : x.agents = [a, b] ∧ x.time? = some t := by
  rcases mem_conflictsAt.mp hx with ⟨u, _, _, rfl⟩ | ⟨u, v, _, _, _, _, _, rfl⟩
  · exact ⟨rfl, rfl⟩
  · exact ⟨rfl, rfl⟩

/-- Two agents, by number, break a rule together at a time in at most two ways. -/
theorem nodup_conflicts (length : Nat) (pair : (Array Nat × Nat) × (Array Nat × Nat)) :
    (conflicts length pair).Nodup := by
  obtain ⟨⟨pathA, a⟩, ⟨pathB, b⟩⟩ := pair
  apply nodup_flatMap_of_tag some Violation.time?
  · exact List.nodup_range.map fun t t' he => Option.some.inj he
  · exact fun t _ => nodup_conflictsAt a b pathA pathB t
  · exact fun t _ x hx => (tags_of_mem_conflictsAt hx).2

theorem agents_of_mem_conflicts {length : Nat} {pair : (Array Nat × Nat) × (Array Nat × Nat)}
    (hx : x ∈ conflicts length pair) : x.agents = [pair.1.2, pair.2.2] := by
  obtain ⟨t, _, hx⟩ := List.mem_flatMap.mp hx
  exact (tags_of_mem_conflictsAt hx).1

/-- No violation is listed twice. -/
theorem nodup_violations (hcount : s.paths.length = p.agents.length)
    (hlength : ∀ path ∈ s.paths, path.length = m + 1) : (violations p s).Nodup := by
  rw [violations_of_regular hcount hlength]
  apply List.Nodup.append
  · apply nodup_flatMap_of_tag (fun named => [named.2]) Violation.agents
    · have hnames := (List.nodup_zipIdx_map_snd (s.paths.zip p.agents)).map
        fun a b (he : [a] = [b]) => List.head_eq_of_cons_eq he
      rwa [List.map_map] at hnames
    · exact fun named _ => nodup_pathViolations _ _ _ _
    · exact fun named _ x hx => agents_of_mem_pathViolations hx
  · apply nodup_flatMap_of_tag (fun pair => [pair.1.2, pair.2.2]) Violation.agents
    · have hinj : Function.Injective fun ab : Nat × Nat => [ab.1, ab.2] := by
        intro ab cd he
        simpa [Prod.ext_iff] using he
      have hnames := (nodup_pairs (List.nodup_zipIdx_map_snd (s.paths.map List.toArray))).map hinj
      rwa [pairs_map, List.map_map] at hnames
    · exact fun pair _ => nodup_conflicts _ pair
    · exact fun pair _ x hx => agents_of_mem_conflicts hx
  · intro x hpath hconflict
    obtain ⟨named, _, hx⟩ := List.mem_flatMap.mp hpath
    obtain ⟨pair, _, hx'⟩ := List.mem_flatMap.mp hconflict
    have hagents := (agents_of_mem_pathViolations hx).symm.trans (agents_of_mem_conflicts hx')
    simp at hagents

/-- What is wrong with the path of an agent is a rule that is broken. -/
theorem breaks_of_mem_pathViolations {a : Nat} {agent : Agent} (hpath : s.paths[a]? = some path)
    (hagent : p.agents[a]? = some agent) (hlength : path.length = m + 1)
    (hx : x ∈ pathViolations p.graph a agent path) : Breaks p m s x := by
  have hposition := position?_of_path hpath
  rcases mem_pathViolations.mp hx with ⟨u, hu, hne, rfl⟩ | ⟨u, hu, hne, rfl⟩ | hmove
  · rw [List.head?_eq_getElem?] at hu
    exact .wrongStart hagent ((hposition 0).trans hu) hne
  · rw [List.getLast?_eq_getElem?, hlength, Nat.add_sub_cancel] at hu
    exact .wrongGoal hagent ((hposition m).trans hu) hne
  · obtain ⟨t, u, v, hu, hv, hnot, rfl⟩ := mem_moveViolations.mp hmove
    rw [not_or, ← Graph.edge_eq_true] at hnot
    exact .missingEdge ((hposition t).trans hu) ((hposition (t + 1)).trans hv) hnot.1 hnot.2

/-- A rule broken by a single agent is found on its path. -/
theorem exists_mem_pathViolations (hcount : s.paths.length = p.agents.length)
    (hlength : ∀ path ∈ s.paths, path.length = m + 1) {a : Nat} (hx : Breaks p m s x)
    (ha : x.agents = [a]) : ∃ path agent, s.paths[a]? = some path ∧ p.agents[a]? = some agent ∧
      x ∈ pathViolations p.graph a agent path := by
  cases hx with
  | wrongStart hagent hu hne =>
    cases ha
    obtain ⟨path, hpath, hu⟩ := exists_path_of_position hu
    rw [← List.head?_eq_getElem?] at hu
    exact ⟨path, _, hpath, hagent, mem_pathViolations.mpr (Or.inl ⟨_, hu, hne, rfl⟩)⟩
  | wrongGoal hagent hu hne =>
    cases ha
    obtain ⟨path, hpath, hu⟩ := exists_path_of_position hu
    have hlast : path.getLast? = path[m]? := by
      rw [List.getLast?_eq_getElem?, hlength path (List.mem_of_getElem? hpath), Nat.add_sub_cancel]
    rw [← hlast] at hu
    exact ⟨path, _, hpath, hagent, mem_pathViolations.mpr (Or.inr (Or.inl ⟨_, hu, hne, rfl⟩))⟩
  | missingEdge hu hv huv he =>
    cases ha
    obtain ⟨path, hpath, hu⟩ := exists_path_of_position hu
    rw [position?_of_path hpath] at hv
    have hlt : a < p.agents.length := hcount ▸ (List.getElem?_eq_some_iff.mp hpath).1
    rw [ne_eq, Graph.edge_eq_true] at he
    exact ⟨path, _, hpath, List.getElem?_eq_getElem hlt, mem_pathViolations.mpr
      (Or.inr (Or.inr (mem_moveViolations.mpr ⟨_, _, _, hu, hv, not_or.mpr ⟨huv, he⟩, rfl⟩)))⟩
  | vertexConflict => cases ha
  | swapConflict => cases ha

/-- The listed violations are the broken rules. -/
theorem mem_violations_iff (hcount : s.paths.length = p.agents.length)
    (hlength : ∀ path ∈ s.paths, path.length = m + 1) :
    x ∈ violations p s ↔ Breaks p m s x := by
  rw [violations_of_regular hcount hlength, List.mem_append, mem_conflicts]
  constructor
  · intro h
    rcases h with hpaths | ⟨a, b, t, hab, _, ⟨u, ha, hb, rfl⟩ | ⟨u, v, huv, ha, ha', hb, hb', rfl⟩⟩
    · obtain ⟨⟨⟨path, agent⟩, a⟩, hmem, hx⟩ := List.mem_flatMap.mp hpaths
      obtain ⟨hpath, hagent⟩ := mem_zipIdx_zip.mp hmem
      have hm := hlength path (List.mem_of_getElem? hpath)
      exact breaks_of_mem_pathViolations hpath hagent hm hx
    · exact .vertexConflict hab ha hb
    · exact .swapConflict hab huv ha ha' hb hb'
  · intro h
    have hsingle {a : Nat} (ha : x.agents = [a]) : ∃ named ∈ (s.paths.zip p.agents).zipIdx,
        x ∈ pathViolations p.graph named.2 named.1.2 named.1.1 := by
      obtain ⟨path, agent, hpath, hagent, hx⟩ := exists_mem_pathViolations hcount hlength h ha
      exact ⟨((path, agent), a), mem_zipIdx_zip.mpr ⟨hpath, hagent⟩, hx⟩
    cases h with
    | wrongStart => exact Or.inl (List.mem_flatMap.mpr (hsingle rfl))
    | wrongGoal => exact Or.inl (List.mem_flatMap.mpr (hsingle rfl))
    | missingEdge => exact Or.inl (List.mem_flatMap.mpr (hsingle rfl))
    | vertexConflict hab ha hb =>
      exact Or.inr ⟨_, _, _, hab, lt_of_position hlength ha, Or.inl ⟨_, ha, hb, rfl⟩⟩
    | swapConflict hab huv ha ha' hb hb' =>
      exact Or.inr ⟨_, _, _, hab, lt_of_position hlength ha,
        Or.inr ⟨_, _, huv, ha, ha', hb, hb', rfl⟩⟩

/-- Of a schedule with a path of `m` steps for each agent, wherever these lead, the checker lists
each broken rule once and nothing else, and it asks the graph about no node that is not in it. -/
theorem violations_exact (hcount : s.paths.length = p.agents.length)
    (hlength : ∀ path ∈ s.paths, path.length = m + 1) :
    (violations p s).Nodup ∧ (∀ x, x ∈ violations p s ↔ Breaks p m s x) ∧
      ∀ a path, s.paths[a]? = some path →
        askedMoves p.graph a path = .ok (moveViolations p.graph a path) := by
  constructor
  · exact nodup_violations hcount hlength
  · exact ⟨fun x => mem_violations_iff hcount hlength, fun a path _ => askedMoves_eq p.graph a path⟩

/-- Two nodes with an edge, whose agents are to change places. -/
def exchange : Problem :=
  ⟨(Graph.empty 2).join 0 1, [⟨0, 1⟩, ⟨1, 0⟩], by decide, by decide, by decide⟩

/-- They do so at once, and then meet on a node that is not there. -/
def astray : Schedule := ⟨[[0, 1, 7], [1, 0, 7]]⟩

theorem violations_exact_astray : astray.paths.length = exchange.agents.length ∧
    (∀ path ∈ astray.paths, path.length = 2 + 1) ∧
    violations exchange astray =
      [.wrongGoal 0 1 7, .missingEdge 0 1 1 7, .wrongGoal 1 0 7, .missingEdge 1 1 0 7,
        .swapConflict 0 1 0 0 1, .vertexConflict 0 1 2 7] ∧
    (violations exchange astray).Nodup ∧
    (∀ x, x ∈ violations exchange astray ↔ Breaks exchange 2 astray x) ∧
    ∀ a path, astray.paths[a]? = some path →
      askedMoves exchange.graph a path = .ok (moveViolations exchange.graph a path) :=
  ⟨rfl, by decide, by decide, violations_exact rfl (by decide)⟩

end Schedule

end AgentPaths
