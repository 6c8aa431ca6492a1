import AgentPaths.Problem.Writer
import AgentPaths.Proofs.Problem.Grammar

/-!
Writing a problem and reading it again. The lines of a written problem are remarks, which the reader
passes over, and entries that show the rows of the problem's listing, and the edges listed give back
the graph.
-/
namespace AgentPaths

open Text

variable {n u v : Nat}

/-- A line without data. -/
def Remark (l : List Char) : Prop := '\n' ∉ l ∧ holdsData (trim l) = false

instance (l : List Char) : Decidable (Remark l) := inferInstanceAs (Decidable (_ ∧ _))

/-- A line that lists the numbers `ns`. -/
def Entry (l : List Char) (ns : List Nat) : Prop :=
  '\n' ∉ l ∧ holdsData (trim l) = true ∧ Row (trim l) ns

theorem holdsData_decimal_append (n : Nat) (s : List Char) : holdsData (decimal n ++ s) = true := by
  obtain ⟨c, r, hn⟩ := List.exists_cons_of_ne_nil (decimal_ne_nil n)
  have hc : c.isDigit = true := isDigit_of_mem_decimal (hn ▸ List.mem_cons_self)
  have hne : c ≠ '#' := fun he => absurd (he ▸ hc) (by decide)
  simp [holdsData, hn, hne]

theorem entry_decimal (h : n < wordBound) : Entry (decimal n) [n] := by
  have htrim : trim (decimal n) = decimal n := trim_of_none fun _ => isBlank_of_mem_decimal
  refine ⟨lineFeed_notMem_decimal n, ?_, ?_⟩
  · rw [htrim, ← List.append_nil (decimal n)]
    exact holdsData_decimal_append n []
  · rw [htrim, Row, ← numbers?_eq_some, numbers?,
      words_of_none (decimal_ne_nil n) fun _ => isBlank_of_mem_decimal]
    simp [number?_decimal h]

theorem entry_pairLine (hu : u < wordBound) (hv : v < wordBound) :
    Entry (pairLine (u, v)) [u, v] := by
  have htrim : trim (pairLine (u, v)) = pairLine (u, v) := by
    have hends := trim_append (decimal_ne_nil u) (fun _ => isBlank_of_mem_decimal)
      (decimal_ne_nil v) (fun _ => isBlank_of_mem_decimal) [' ']
    rwa [List.append_assoc, List.singleton_append] at hends
  refine ⟨?_, ?_, ?_⟩
  · rw [pairLine, List.mem_append, List.mem_cons]
    simp [lineFeed_notMem_decimal]
  · rw [htrim]
    exact holdsData_decimal_append u _
  · rw [htrim, Row, ← numbers?_eq_some, numbers?, pairLine,
      words_append_cons (decimal_ne_nil u) (fun _ => isBlank_of_mem_decimal) (by decide),
      words_of_none (decimal_ne_nil v) fun _ => isBlank_of_mem_decimal]
    simp [number?_decimal hu, number?_decimal hv]

/-- Lines show rows of numbers one after the other, with remarks in between. -/
inductive Shows : List (List Char) → List (List Nat) → Prop where
  | nil : Shows [] []
  | remark {l ls rows} : Remark l → Shows ls rows → Shows (l :: ls) rows
  | entry {l ns ls rows} : Entry l ns → Shows ls rows → Shows (l :: ls) (ns :: rows)

namespace Shows

variable {ls ls' : List (List Char)} {rows rows' : List (List Nat)}

theorem append (h : Shows ls rows) (h' : Shows ls' rows') : Shows (ls ++ ls') (rows ++ rows') := by
  induction h with
  | nil => exact h'
  | remark hl _ ih => exact .remark hl ih
  | entry hl _ ih => exact .entry hl ih

theorem map {α : Type} {f : α → List Char} {g : α → List Nat} {xs : List α}
    (h : ∀ x ∈ xs, Entry (f x) (g x)) : Shows (xs.map f) (xs.map g) := by
  induction xs with
  | nil => exact .nil
  | cons x xs ih =>
    obtain ⟨hx, hxs⟩ := List.forall_mem_cons.mp h
    exact .entry hx (ih hxs)

theorem unbroken (h : Shows ls rows) : ∀ l ∈ ls, '\n' ∉ l := by
  induction h with
  | nil => simp
  | remark hl _ ih => exact List.forall_mem_cons.mpr ⟨hl.1, ih⟩
  | entry hl _ ih => exact List.forall_mem_cons.mpr ⟨hl.1, ih⟩

theorem forall₂_row (h : Shows ls rows) :
    List.Forall₂ Row ((ls.map trim).filter holdsData) rows := by
  induction h with
  | nil => exact .nil
  | remark hl _ ih =>
    rw [List.map_cons, List.filter_cons_of_neg (by simp [hl.2])]
    exact ih
  | entry hl _ ih =>
    rw [List.map_cons, List.filter_cons_of_pos hl.2.1]
    exact .cons hl.2.2 ih

/-- The data lines of a text begin with the rows that its lines show, and end with them. -/
theorem begins (h : Shows ls rows) : Begins Row (dataLines (unlines ls)) rows [] := by
  have htrim : (ls.map (· ++ ['\n'])).map trim = ls.map trim := by
    rw [List.map_map]
    exact List.map_congr_left fun l _ => trim_concat (by decide) l
  rw [dataLines_eq, textLines_unlines h.unbroken, htrim]
  exact ⟨_, (List.append_nil _).symm, h.forall₂_row⟩

end Shows

namespace Problem

theorem agentLines_shows (p : Problem) (h : p.graph.size < wordBound) :
    Shows p.agentLines (p.agents.map fun a => [a.initial, a.goal]) := by
  unfold agentLines
  split
  next hnone =>
    rw [hnone]
    exact .remark (by decide) .nil
  next agents hagents =>
    refine .map fun a ha => ?_
    have hinside := p.admissible.inside a ha
    exact entry_pairLine (by omega) (by omega)

/-- The lines of a problem that can be laid out show its listing. -/
theorem lines_show [Memory] (p : Problem) (h : Fits p.graph.size) : Shows p.lines
    ([p.graph.size] :: edgeRows p.graph.edges ++ agentRows p.agents) := by
  have hword : p.graph.size < wordBound := Nat.lt_of_succ_lt h.1
  have hedges : Shows (p.graph.edges.map pairLine) (p.graph.edges.map fun e => [e.1, e.2]) := by
    refine .map fun e he => ?_
    have hlt := Graph.lt_of_hasEdge (Graph.mem_edges.mp he).2
    exact entry_pairLine (by omega) (by omega)
  have hedgeCount : Entry (decimal p.graph.edgeCount) [p.graph.edges.length] := by
    have hle := p.graph.edgeCount_le
    rw [← p.graph.edgeCount_eq_length_edges]
    exact entry_decimal (Nat.lt_of_le_of_lt (Nat.le_trans hle (Nat.div_le_self _ 2)) h.2.1)
  have hagentCount : Entry (decimal p.agents.length) [p.agents.length] :=
    entry_decimal (Nat.lt_of_le_of_lt p.admissible.length_le hword)
  show Shows p.lines ([[p.graph.size], [p.graph.edges.length]] ++
    (p.graph.edges.map fun e => [e.1, e.2]) ++
    ([[p.agents.length]] ++ p.agents.map fun a => [a.initial, a.goal]))
  rw [lines, List.append_assoc]
  refine .append (.append ?front hedges) (.append ?back (p.agentLines_shows hword))
  case front =>
    exact .remark (by decide) <| .entry (entry_decimal hword) <| .remark (by decide) <|
      .remark (by decide) <| .entry hedgeCount <| .remark (by decide) <| .remark (by decide) .nil
  case back =>
    exact .remark (by decide) <| .remark (by decide) <| .entry hagentCount <|
      .remark (by decide) <| .remark (by decide) .nil

theorem listing_text [Memory] (p : Problem) (h : Fits p.graph.size) :
    Listing (dataLines p.text) p.graph.size p.graph.edges p.agents where
  fits := h
  begins := ⟨[], (p.lines_show h).begins⟩
  inside _ he := Graph.lt_of_hasEdge (Graph.mem_edges.mp he).2
  admissible := p.admissible

theorem read_text [Memory] (p : Problem) (h : Fits p.graph.size) :
    Problem.read (.ofUTF8 p.text) = .ok p :=
  read_ofUTF8_eq_ok.mpr ⟨p.graph.edges, p.listing_text h, p.graph.joinAll_edges.symm⟩

/-- A problem whose graph can be laid out is read again from its text. Hence, whatever file a
problem comes from, its text is read as the same problem, whose text is the same. -/
theorem text_round_trip [Memory] :
    (∀ p : Problem, Fits p.graph.size → Problem.read (.ofUTF8 p.text) = .ok p) ∧
      ∀ (file : Source) (p : Problem), Problem.read file = .ok p →
        ∃ q, Problem.read (.ofUTF8 p.text) = .ok q ∧ q = p ∧ q.text = p.text := by
  refine ⟨read_text, fun file p hread => ?_⟩
  obtain ⟨es, hfits, -⟩ := read_eq_ok.mp hread
  exact ⟨p, p.read_text hfits, rfl, rfl⟩

/-- Four nodes, one of them with a loop and one without edges, and no agents. -/
def looped : Problem := ⟨(Graph.empty 4).joinAll [(2, 0), (1, 1)], [], Admissible.nil _⟩

section

attribute [local instance] Memory.ample

theorem text_round_trip_looped :
    Problem.read (.ofUTF8 looped.text) = .ok looped ∧
      ∃ q, Problem.read (.ofUTF8 listing_sampleText.problem.text) = .ok q ∧
        q = listing_sampleText.problem ∧ q.text = listing_sampleText.problem.text :=
  ⟨text_round_trip.1 looped (by decide),
    text_round_trip.2 (.ofUTF8 sampleText) listing_sampleText.problem listing_sampleText.read⟩

end

end Problem

end AgentPaths
