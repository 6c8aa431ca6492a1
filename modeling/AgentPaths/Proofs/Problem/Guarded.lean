import AgentPaths.Proofs.Graph.Guarded
import AgentPaths.Proofs.Problem.Faults

/-!
Making problems with every step guarded. Whatever the numbers in a file are, no sum, product or
entry on the way to its problem is a misuse, and a graph that is too large is a defect like any
other. Only a map is not asked for a size that fits before it becomes a graph.
-/
namespace AgentPaths.Guarded

open Text

variable {ε α β : Type} {g : Graph} {fin index n todo : Nat} {rs : List Record} {file : Source}

/-- Reads edges as a reader does, with guards where they are added. -/
def edges (fin index : Nat) (g : Graph) (rs : List Record) :
    Nat → Except Misuse (Except ReadError (Graph × List Record))
  | 0 => .ok (.ok (g, rs))
  | todo + 1 => match Reader.two fin (.edge index) rs with
    | .error e => .ok (.error e)
    | .ok (line, (u, v), rest) => match addEdge g u v with
      | .error misuse => .error misuse
      | .ok (.error d) => .ok (.error (.defect line d))
      | .ok (.ok g) => edges fin (index + 1) g rest todo

/-- The problem of the agents `found`. A defect has to be that of an agent whose line is among
theirs. -/
def ofRead (g : Graph) (found : List (Nat × Agent)) : Except Misuse (Except ReadError Problem) :=
  match Problem.ofAgents g (found.map Prod.snd) with
  | .ok p => .ok (.ok p)
  | .error d => match d.culprit?.bind fun a => (found.map Prod.fst)[a]? with
    | some line => .ok (.error (.defect line d))
    | none => .error .entryMissing

/-- Reads a problem; an error of the file ends the reading, and so does a misuse. -/
def read [Memory] (file : Source) : ExceptT ReadError (Except Misuse) Problem := do
  let fin := file.length + 1
  let (line, n, rest) ← ExceptT.mk (.ok (Reader.one fin .nodeCount (records 1 file)))
  let g ← ExceptT.mk (.ok ((ofSize? n).mapError (.defect line)))
  let (_, edgeCount, rest) ← ExceptT.mk (.ok (Reader.one fin .edgeCount rest))
  let (g, rest) ← ExceptT.mk (edges fin 0 g rest edgeCount)
  let (_, agentCount, rest) ← ExceptT.mk (.ok (Reader.one fin .agentCount rest))
  let found ← ExceptT.mk (.ok (Reader.agents fin n 0 rest agentCount))
  ExceptT.mk (ofRead g found)

theorem edges_eq [Memory] (hfits : Fits g.size) :
    edges fin index g rs todo = .ok (Reader.edges fin index g rs todo) := by
  induction todo generalizing index g rs with
  | zero => rfl
  | succ todo ih =>
    rw [edges, Reader.edges]
    cases Reader.two fin (.edge index) rs with
    | error e => rfl
    | ok row =>
      obtain ⟨line, ⟨u, v⟩, rest⟩ := row
      dsimp only
      rw [addEdge_eq hfits]
      cases hadd : g.addEdge u v with
      | error d => rfl
      | ok joined =>
        obtain ⟨-, -, rfl⟩ := Graph.addEdge_eq_ok.mp hadd
        exact ih hfits

/-- The only defects of agents inside the graph are clashes, and the later agent has a line. -/
theorem ofRead_eq {found : List (Nat × Agent)}
    (hinside : ∀ a ∈ found.map Prod.snd, a.initial < g.size ∧ a.goal < g.size) :
    ofRead g found = .ok (Problem.ofRead g found) := by
  rw [ofRead, Problem.ofRead]
  cases hagents : Problem.ofAgents g (found.map Prod.snd) with
  | ok p => rfl
  | error d =>
    obtain ⟨second, hclash⟩ :=
      (firstDefect?_eq_some_iff hinside).mp (Problem.ofAgents_eq_error.mp hagents)
    have hlt : second < (found.map Prod.fst).length := by
      have hlength := hclash.lt_length
      rwa [List.length_map] at hlength ⊢
    simp only [hclash.culprit, Option.bind_some, List.getElem?_eq_getElem hlt, Option.getD_some]

/-- Steps that meet no misuse can be taken one after the other. -/
theorem run_bind_eq {x : ExceptT ε (Except Misuse) α} {y : Except ε α}
    {f : α → ExceptT ε (Except Misuse) β} {k : α → Except ε β} (hx : x.run = .ok y)
    (hf : ∀ a, y = .ok a → (f a).run = .ok (k a)) : (x >>= f).run = .ok (y >>= k) := by
  have hx : x = ExceptT.mk (.ok y) := hx
  rw [hx]
  cases y with
  | error e => rfl
  | ok a => exact hf a rfl

theorem read_eq [Memory] (file : Source) : (read file).run = .ok (Problem.read file) := by
  refine run_bind_eq rfl fun (line, n, rest) _ => ?_
  refine run_bind_eq ?size fun g hg => ?_
  case size => rw [ofSize?_eq, ExceptT.run_mk]
  obtain ⟨hfits, rfl⟩ := Graph.ofSize?_eq_ok.mp (mapError_eq_ok.mp hg)
  refine run_bind_eq rfl fun (_, edgeCount, rest) _ => ?_
  refine run_bind_eq (edges_eq hfits) fun (g, rest) hg => ?_
  obtain ⟨es, -, -, rfl, -⟩ := Reader.edges_eq_ok.mp hg
  refine run_bind_eq rfl fun (_, agentCount, rest) _ => ?_
  refine run_bind_eq rfl fun found hfound => ofRead_eq ?_
  rw [Graph.size_joinAll]
  exact ((Reader.agents_eq_ok _ _).mp ⟨found, hfound, rfl⟩).2.1

theorem length_pieces_le (p : α → Bool) (s : List α) : (pieces p s).length ≤ s.length := by
  induction s with
  | nil => exact Nat.le_refl _
  | cons a s ih =>
    rw [pieces, List.foldr_cons, ← pieces, List.length_cons]
    split
    · rw [List.length_cons]
      omega
    · split
      next h =>
        rw [List.length_singleton]
        omega
      next h =>
        rw [h, List.length_cons] at ih
        rw [List.length_cons]
        omega

theorem line_lt_of_mem_records {line first : Nat} {content : List Char}
    (h : .data line content ∈ records first file) : line < first + file.length := by
  induction file generalizing first with
  | nil => cases h
  | cons l file ih =>
    rw [List.length_cons]
    -- the line is this one or one of those after it
    have hline : line = first ∨ .data line content ∈ records (first + 1) file := by
      cases l with
      | none => exact Or.inr (by simpa [records] using h)
      | some l =>
        rw [records] at h
        split at h
        next => exact (List.mem_cons.mp h).imp_left fun he => (Record.data.inj he).1
        next => exact Or.inr h
    rcases hline with rfl | hlater
    · omega
    · have := ih hlater
      omega

/-- The lines of a file are numbered in words, and so is the one after the last. -/
theorem line_lt_wordBound {bytes : ByteArray} (h : bytes.size + 1 < wordBound) :
    (Source.ofBytes bytes).length + 1 < wordBound ∧
      ∀ line content, .data line content ∈ records 1 (.ofBytes bytes) → line < wordBound := by
  have hlength : (Source.ofBytes bytes).length ≤ bytes.size := by
    rw [Source.ofBytes, List.length_map]
    exact length_pieces_le _ _
  constructor
  · omega
  · intro line content hmem
    have := line_lt_of_mem_records hmem
    omega

theorem read_of_not_fits [Memory] {line : Nat} {content : List Char} {rest : List Record}
    (hrecords : records 1 file = .data line content :: rest) (hrow : Row content [n])
    (hfits : ¬Fits n) : Problem.read file = .error (.defect line (.tooManyNodes n)) := by
  rw [Problem.read_eq_error, hrecords]
  exact .item (.nodeCount : Awaits n [] _ _) (begins_nil.mpr rfl) (.tooManyNodes hrow hfits)

/-- Agents are refused if they are not admissible, and never for the size of the graph. -/
theorem exists_ofAgents_eq_error {agents : List Agent} (h : ¬Admissible g.size agents) :
    ∃ d, Problem.ofAgents g agents = .error d ∧ ∀ n, d ≠ .tooManyNodes n := by
  cases hagents : Problem.ofAgents g agents with
  | ok p =>
    obtain ⟨rfl, rfl⟩ := Problem.ofAgents_eq_ok.mp hagents
    exact absurd p.admissible h
  | error d =>
    refine ⟨d, rfl, fun n hd => ?_⟩
    obtain ⟨i, -, hrefused⟩ := (firstDefect?_eq_some_iff_refusedFor (Admissible.nil _)).mp
      (Problem.ofAgents_eq_error.mp hagents)
    rw [hd] at hrefused
    cases hrefused

/-- Graphs and problems are made or refused with every step guarded, and a size that does not fit is
a defect wherever it is asked for; but a map that is to become a graph of such a size is a
misuse. -/
theorem construction_exact [Memory] (n u v : Nat) (m : EdgeMap) (g : Graph) (agents : List Agent)
    (bytes : ByteArray) :
    (ofSize? n = Graph.ofSize? n ∧ (Fits n → Graph.ofSize? n = .ok (.empty n)) ∧
      (¬Fits n → Graph.ofSize? n = .error (.tooManyNodes n))) ∧
    (g.Made → addEdge g u v = .ok (g.addEdge u v)) ∧
    (ofEdgeMap n m = Graph.ofEdgeMap n m ∧ (Fits n → ∃ r, Graph.ofEdgeMap n m = .ok r) ∧
      (¬Fits n → Graph.ofEdgeMap n m = .error (.graphTooLarge n))) ∧
    ((Admissible g.size agents → ∃ p, Problem.ofAgents g agents = .ok p) ∧
      (¬Admissible g.size agents →
        ∃ d, Problem.ofAgents g agents = .error d ∧ ∀ n, d ≠ .tooManyNodes n)) ∧
    (read (.ofBytes bytes)).run = .ok (Problem.read (.ofBytes bytes)) ∧
      (bytes.size + 1 < wordBound → (Source.ofBytes bytes).length + 1 < wordBound ∧
        ∀ line content, .data line content ∈ records 1 (.ofBytes bytes) → line < wordBound) ∧
      ∀ line content rest n, records 1 (.ofBytes bytes) = .data line content :: rest →
        Row content [n] → ¬Fits n →
        Problem.read (.ofBytes bytes) = .error (.defect line (.tooManyNodes n)) := by
  refine ⟨⟨ofSize?_eq n, ?_, ?_⟩, fun hg => addEdge_eq hg.fits u v, ⟨ofEdgeMap_eq n m, ?_, ?_⟩,
    ⟨?_, exists_ofAgents_eq_error⟩, read_eq _, line_lt_wordBound, fun _ _ _ _ => read_of_not_fits⟩
  · intro hfits
    exact Graph.ofSize?_eq_ok.mpr ⟨hfits, rfl⟩
  · intro hfits
    exact Graph.ofSize?_eq_error.mpr ⟨hfits, rfl⟩
  · intro hfits
    exact ⟨_, Graph.ofEdgeMap_of_fits hfits m⟩
  · intro hfits
    exact Graph.ofEdgeMap_of_not_fits hfits m
  · intro hadmissible
    exact ⟨⟨g, agents, hadmissible⟩, Problem.ofAgents_eq_ok.mpr ⟨rfl, rfl⟩⟩

/-- A file for more nodes than a table can be laid out for. -/
def hugeText : List Char := "# nodes\n4294967296\n0\n0\n".toList

section

attribute [local instance] Memory.ample

theorem construction_exact_huge :
    (Fits 3 ∧ Graph.ofSize? 3 = .ok (.empty 3) ∧ ∃ r, Graph.ofEdgeMap 3 Graph.scattered = .ok r) ∧
    (¬Fits halfBound ∧ Graph.ofSize? halfBound = .error (.tooManyNodes halfBound) ∧
      Graph.ofEdgeMap halfBound .empty = .error (.graphTooLarge halfBound)) ∧
    ((Graph.empty 3).Made ∧ addEdge (.empty 3) 2 1 = .ok ((Graph.empty 3).addEdge 2 1)) ∧
    (Admissible 3 [⟨0, 1⟩] ∧ ∃ p, Problem.ofAgents (.empty 3) [⟨0, 1⟩] = .ok p) ∧
    (¬Admissible 3 [⟨0, 1⟩, ⟨0, 2⟩] ∧ ∃ d,
      Problem.ofAgents (.empty 3) [⟨0, 1⟩, ⟨0, 2⟩] = .error d ∧ ∀ n, d ≠ .tooManyNodes n) ∧
    ((String.ofList hugeText).toUTF8.size + 1 < wordBound ∧
      (Source.ofUTF8 hugeText).length + 1 < wordBound) ∧
    Problem.read (.ofUTF8 hugeText) = .error (.defect 2 (.tooManyNodes halfBound)) := by
  have hfits : Fits 3 := by decide
  have hhuge : ¬Fits halfBound := by decide
  have hmade : (Graph.empty 3).Made := Graph.made_iff_fits.mpr hfits
  have hone : Admissible 3 [⟨0, 1⟩] := ⟨by decide, by decide, by decide⟩
  have htwo : ¬Admissible 3 [⟨0, 1⟩, ⟨0, 2⟩] := fun h => absurd h.initials (by decide)
  have hbytes : (String.ofList hugeText).toUTF8.size + 1 < wordBound := by decide +kernel
  have hrecords : records 1 (.ofUTF8 hugeText) = [.data 2 "4294967296".toList,
      .data 3 ['0'], .data 4 ['0']] := by
    rw [ofUTF8_eq_ofText]
    rfl
  have hrow : Row "4294967296".toList [halfBound] := numbers?_eq_some.mp (by decide +kernel)
  obtain ⟨⟨-, hsize, -⟩, hedge, ⟨-, hmap, -⟩, ⟨hagents, -⟩, -, hlines, -⟩ :=
    construction_exact 3 2 1 Graph.scattered (.empty 3) [⟨0, 1⟩] (String.ofList hugeText).toUTF8
  obtain ⟨⟨-, -, hsizeHuge⟩, -, ⟨-, -, hmapHuge⟩, ⟨-, hagentsShared⟩, -, -, hread⟩ :=
    construction_exact halfBound 0 0 .empty (.empty 3) [⟨0, 1⟩, ⟨0, 2⟩]
      (String.ofList hugeText).toUTF8
  exact ⟨⟨hfits, hsize hfits, hmap hfits⟩, ⟨hhuge, hsizeHuge hhuge, hmapHuge hhuge⟩,
    ⟨hmade, hedge hmade⟩, ⟨hone, hagents hone⟩, ⟨htwo, hagentsShared htwo⟩,
    ⟨hbytes, (hlines hbytes).1⟩, hread _ _ _ _ hrecords hrow hhuge⟩

/-- A map that is to become a graph of too many nodes is neither taken nor refused. -/
theorem ofEdgeMap_misused : ¬∀ (n : Nat) (m : EdgeMap), n < wordBound → m.Lawful →
    ∃ r, Graph.ofEdgeMap n m = .ok r := by
  intro h
  obtain ⟨r, hr⟩ := h halfBound .empty (by decide) EdgeMap.lawful_empty
  rw [Graph.ofEdgeMap_of_not_fits (by decide)] at hr
  cases hr

end

end AgentPaths.Guarded
