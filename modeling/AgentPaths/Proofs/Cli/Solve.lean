import AgentPaths.Proofs.Cli.Directory
import AgentPaths.Proofs.Cli.Verify
import AgentPaths.Proofs.Sat.Model
import AgentPaths.Proofs.Schedule.RoundTrip
import AgentPaths.Proofs.Search.Manageable

/-!
Solving a problem and checking what has been written. With a solver that is right, a schedule is
written exactly if there is one that the search comes to, and its text passes the check.
-/
namespace AgentPaths

/-- The nodes of a solution are those of the graph. -/
theorem IsSolution.lt_size {p : Problem} {m : Nat} {s : Schedule} (hs : IsSolution p m s) :
    ∀ path ∈ s.paths, ∀ v ∈ path, v < p.graph.size := by
  intro path hpath v hv
  obtain ⟨i, hi⟩ := List.mem_iff_getElem?.mp hpath
  obtain ⟨t, ht⟩ := List.mem_iff_getElem?.mp hv
  have hlt : i < p.agents.length := hs.count ▸ (List.getElem?_eq_some_iff.mp hi).1
  have hagent := List.getElem?_eq_getElem hlt
  have hposition : s.position? i t = some v := by rw [Schedule.position?_of_path hi, ht]
  have hinside := p.admissible.inside _ (List.getElem_mem hlt)
  exact (hs.walks hagent hposition).2.1.lt_size hinside.1

theorem IsSolution.read_text {p : Problem} {m : Nat} {s : Schedule} (hs : IsSolution p m s)
    (hsize : p.graph.size < wordBound) : Schedule.read (.ofUTF8 s.text) = .ok s := by
  have hwords : ∀ path ∈ s.paths, ∀ v ∈ path, v < wordBound := fun path hpath v hv =>
    Nat.lt_trans (hs.lt_size path hpath v hv) hsize
  rw [Schedule.read_text_eq_self_iff hwords]
  intro hlast
  cases hs.length _ (List.mem_of_getLast? hlast)

namespace Cli

open Text

variable {w : Surroundings} {output : List Char} {d : Directory} {path : Path} {file : Source}
  {a : SolveArgs} {p : Problem}

def SolveArgs.config (a : SolveArgs) : SearchConfig := ⟨a.minMakespan, a.maxMakespan, a.pruning⟩

/-- The search is not cut short: there is no budget, or the token is clear when the search is
over. -/
def Calm [Memory] (w : Surroundings) (a : SolveArgs) (p : Problem) : Prop :=
  match a.maxTime with
  | none => True
  | some time => ∃ budget, time.budget? = some budget ∧
    (Search.run p (Adapter.oracle w.solver) (w.timeline p a.config (some budget)) a.config
      ()).1.cancelled = false

/-- Whatever is stored where the output goes can be written. -/
def Accepts (d : Directory) (output : Option Path) : Prop :=
  ∀ path ∈ output, ∀ text, (d.store path text).1 = .written

/-- What is printed and the directory when a text has been written. -/
def written (d : Directory) (output : Option Path) (text : List Char) : List Char × Directory :=
  match output with
  | none => (text, d)
  | some path => (d.store path text).2

theorem Script.run_emit [Memory] {target : Option Path} {text : List Char} {next : Script}
    (haccepts : Accepts d target) : (emit target text next).run w output d =
      next.run w (output ++ (written d target text).1) (written d target text).2 := by
  cases target with
  | none => rfl
  | some path =>
    have hstored := haccepts path rfl text
    rw [emit, run]
    dsimp only
    rw [hstored]
    rfl

theorem Script.run_solve [Memory] (hinput : a.input = some path) (hfile : d.load? path = some file)
    (hp : Problem.read file = .ok p) (hcalm : Calm w a p) : (solve a).run w output d =
      (finish a.output (Search.run p (Adapter.oracle w.solver) none a.config ()).2).run
        w output d := by
  unfold Calm at hcalm
  rw [solve, hinput]
  dsimp only
  rw [run_loadWith hfile hp]
  cases htime : a.maxTime with
  | none => rfl
  | some time =>
    rw [htime] at hcalm
    obtain ⟨budget, hbudget, hclear⟩ := hcalm
    dsimp only
    rw [hbudget, ← Search.run_eq_of_clear hclear]
    rfl

/-- A search that nothing interrupts and that has no schedule is reported, unless its memory has run
out. -/
theorem Script.finish_eq [Memory] {R : Nat → Prop} {first last : Nat} {result : Search.Result}
    (h : Search.Settled p R first last result) (hunsolved : ∀ m s, result ≠ .ok (.solved m s))
    (target : Option Path) : finish target result =
      .stop (if result = .error (.decode (.misuse .outOfMemory)) then .aborted else .failed) := by
  cases h with
  | solved => exact absurd rfl (hunsolved _ _)
  | exhausted => rfl
  | broken _ _ _ hbreaks =>
    cases hbreaks with
    | @table misuse => cases misuse <;> rfl
    | clauses => rfl

/-- A run ends with the schedule of a problem written: if it went to a file, it is there, and it is
read as the schedule. Wherever the text lies, a check of it against the file of the problem is
passed without a remark. -/
structure Delivered [Memory] (d : Directory) (target : Option Path) (file : Source) (s : Schedule)
    (e : Ending) : Prop where
  ending : e = ⟨.done, (written d target s.text).1, (written d target s.text).2⟩
  kept : ∀ path l, target = some path → d.target? path = some (.file l) →
    e.directory.load? path = some (.ofUTF8 s.text)
  read : Schedule.read (.ofUTF8 s.text) = .ok s
  passed : ∀ w d args v, Request.ofArgs args = .run (.verify v) → v.showAsGrid = false →
    d.load? v.graph = some file → d.load? v.result = some (.ofUTF8 s.text) →
    runArgs w d args = ⟨.done, "Verification done\n".toList, d⟩

theorem delivered_of_isSolution [Memory] {m : Nat} {s : Schedule} {target : Option Path}
    (haccepts : Accepts d target) (hp : Problem.read file = .ok p) (hs : IsSolution p m s) :
    Delivered d target file s ((Script.emit target s.text (.stop .done)).run w [] d) := by
  obtain ⟨_, hfits, _⟩ := Problem.read_eq_ok.mp hp
  have hread := hs.read_text (Nat.lt_of_succ_lt hfits.1)
  have hending : (Script.emit target s.text (.stop .done)).run w [] d =
      ⟨.done, (written d target s.text).1, (written d target s.text).2⟩ := Script.run_emit haccepts
  refine ⟨hending, ?_, hread, ?_⟩
  · intro path l htarget hfile
    rw [hending, htarget, ofUTF8_eq_ofText, written, Directory.store, hfile]
    exact Directory.load?_put hfile
  · intro w d args v hargs hgrid hgraph hresult
    rw [runArgs, hargs]
    show (Script.verify v).run w [] d = _
    rw [Script.run_verify hgrid hgraph hp hresult hread, Script.verdict,
      if_pos hs.violations_eq_nil, Script.reportLines, hs.violations_eq_nil]
    rfl

section Solving

variable {args : List (List Char)}

/-- Memory runs out in the search for a schedule of the problem `p`. -/
def RunsOut [Memory] (w : Surroundings) (a : SolveArgs) (p : Problem) : Prop :=
  Search.RunsOut p (Search.Manageable p a.config w.solver) a.minMakespan a.maxMakespan

/-- How solving a problem ends: the schedule that the search found has been delivered, or nothing
has been written and there was no makespan to be found. -/
theorem solve_cases [Memory] (hkeeps : w.solver.Keeps)
    (hargs : Request.ofArgs args = .run (.solve a)) (hinput : a.input = some path)
    (hfile : d.load? path = some file) (hp : Problem.read file = .ok p) (hcalm : Calm w a p)
    (haccepts : Accepts d a.output) :
    (∃ m s, a.minMakespan ≤ m ∧ m ≤ a.maxMakespan ∧ IsSolution p m s ∧
      (∀ j, a.minMakespan ≤ j → j ≤ m → Search.Manageable p a.config w.solver j) ∧
      (Search.run p (Adapter.oracle w.solver) none a.config ()).2 = .ok (.solved m s) ∧
      ¬RunsOut w a p ∧ Delivered d a.output file s (runArgs w d args)) ∨
    ((∀ m, a.minMakespan ≤ m → m ≤ a.maxMakespan →
      (∀ j, a.minMakespan ≤ j → j ≤ m → Search.Manageable p a.config w.solver j) →
        ¬Feasible p m) ∧
      ((RunsOut w a p ∧ runArgs w d args = ⟨.aborted, [], d⟩) ∨
        (¬RunsOut w a p ∧ runArgs w d args = ⟨.failed, [], d⟩))) := by
  have hrun : runArgs w d args = (Script.solve a).run w [] d := by
    rw [runArgs, hargs]
    rfl
  have hhandles : Search.Handles p a.config _ (Search.Manageable p a.config w.solver) :=
    Search.handles_adapter hkeeps
  have hsettled := Search.run_settled hhandles ()
  have hout := hsettled.runsOut_iff hhandles.fits
  rw [hrun, Script.run_solve hinput hfile hp hcalm]
  generalize (Search.run p (Adapter.oracle w.solver) none a.config ()).2 = result at hsettled hout ⊢
  by_cases hsolved : ∃ m s, result = .ok (.solved m s)
  · obtain ⟨m, s, rfl⟩ := hsolved
    cases hsettled with
    | solved hfirst hlast hR hs hbefore =>
      have hall : ∀ j, a.minMakespan ≤ j → j ≤ m → Search.Manageable p a.config w.solver j := by
        intro j hj hle
        rcases Nat.lt_or_eq_of_le hle with hlt | rfl
        · exact (hbefore j hj hlt).1
        · exact hR
      have hnot : ¬RunsOut w a p := fun hruns => by cases hout.mp hruns
      left
      refine ⟨m, s, hfirst, hlast, hs, hall, rfl, hnot, ?_⟩
      exact delivered_of_isSolution haccepts hp hs
  · have hunsolved : ∀ m s, result ≠ .ok (.solved m s) := fun m s he => hsolved ⟨m, s, he⟩
    refine Or.inr ⟨fun m => hsettled.not_feasible hunsolved, ?_⟩
    rw [Script.finish_eq hsettled hunsolved]
    by_cases he : result = .error (.decode (.misuse .outOfMemory))
    · rw [if_pos he]
      exact Or.inl ⟨hout.mpr he, rfl⟩
    · rw [if_neg he]
      exact Or.inr ⟨mt hout.mp he, rfl⟩

/-- With a solver that is right, a search that is not cut short and an output that can be written,
solving a problem ends with 0 exactly if the range has a makespan with a schedule that the checker
accepts, and all makespans from the first of the range to that one can be managed. The schedule
found has then been delivered. Else nothing has been written, and it ends with 1, unless the process
has been ended because the memory for a table could not be had. -/
theorem solve_then_verify [Memory] (hkeeps : w.solver.Keeps)
    (hargs : Request.ofArgs args = .run (.solve a)) (hinput : a.input = some path)
    (hfile : d.load? path = some file) (hp : Problem.read file = .ok p) (hcalm : Calm w a p)
    (haccepts : Accepts d a.output) :
    ((runArgs w d args).status.code = 0 ↔ ∃ m, a.minMakespan ≤ m ∧ m ≤ a.maxMakespan ∧
      Feasible p m ∧ ∀ j, a.minMakespan ≤ j → j ≤ m → Search.Manageable p a.config w.solver j) ∧
    ((runArgs w d args).status.code = 0 → ∃ m s, a.minMakespan ≤ m ∧ m ≤ a.maxMakespan ∧
      IsSolution p m s ∧
      (Search.run p (Adapter.oracle w.solver) none a.config ()).2 = .ok (.solved m s) ∧
      Delivered d a.output file s (runArgs w d args)) ∧
    ((runArgs w d args).status.code ≠ 0 → ¬RunsOut w a p →
      (runArgs w d args).status.code = 1 ∧ runArgs w d args = ⟨.failed, [], d⟩) ∧
    (RunsOut w a p → runArgs w d args = ⟨.aborted, [], d⟩) := by
  rcases solve_cases hkeeps hargs hinput hfile hp hcalm haccepts with
    ⟨m, s, hfirst, hlast, hs, hall, hfound, hnot, hdelivered⟩ | ⟨hnone, hending⟩
  · have hcode : (runArgs w d args).status.code = 0 := by
      rw [hdelivered.ending]
      rfl
    refine ⟨iff_of_true hcode ?_, fun _ => ?_, fun hne => absurd hcode hne, fun h => absurd h hnot⟩
    · exact ⟨m, hfirst, hlast, feasible_iff.mpr ⟨s, hs⟩, hall⟩
    · exact ⟨m, s, hfirst, hlast, hs, hfound, hdelivered⟩
  · have hcode : (runArgs w d args).status.code ≠ 0 := by
      rcases hending with ⟨_, hending⟩ | ⟨_, hending⟩
      · rw [hending]
        exact show Status.aborted.code ≠ 0 by decide
      · rw [hending]
        exact show Status.failed.code ≠ 0 by decide
    refine ⟨iff_of_false hcode ?_, fun hzero => absurd hzero hcode, fun _ hnot => ?_,
      fun hruns => ?_⟩
    · intro h
      obtain ⟨m, hfirst, hlast, hfeasible, hall⟩ := h
      exact hnone m hfirst hlast hall hfeasible
    · rcases hending with ⟨hruns, _⟩ | ⟨_, hending⟩
      · exact absurd hruns hnot
      · exact ⟨by rw [hending]; rfl, hending⟩
    · rcases hending with ⟨_, hending⟩ | ⟨hnot, _⟩
      · exact hending
      · exact absurd hruns hnot

end Solving

def convoySolveArgs : SolveArgs :=
  ⟨some "problem".toList, 0, wordBound - 1, none, .reachability, some "schedule".toList⟩

section

attribute [local instance] Memory.ample

/-- The convoy is solved into a new file. -/
theorem solve_then_verify_convoy :
    Request.ofArgs ["solve".toList, "--input=problem".toList, "--output=schedule".toList] =
      .run (.solve convoySolveArgs) ∧
    Problem.read (.ofUTF8 Encoding.convoy.text) = .ok Encoding.convoy ∧
    Accepts convoyDirectory (some "schedule".toList) ∧
    (runArgs quietSurroundings convoyDirectory
      ["solve".toList, "--input=problem".toList, "--output=schedule".toList]).status.code = 0 ∧
    ∃ m s, IsSolution Encoding.convoy m s ∧ Delivered convoyDirectory (some "schedule".toList)
      (.ofUTF8 Encoding.convoy.text) s (runArgs quietSurroundings convoyDirectory
        ["solve".toList, "--input=problem".toList, "--output=schedule".toList]) := by
  have hargs : Request.ofArgs
      ["solve".toList, "--input=problem".toList, "--output=schedule".toList] =
      .run (.solve convoySolveArgs) := by
    simp [Request.ofArgs, Topic.ofName?, parseOptions, asksForHelp, splitOption?, solveOptions,
      Request.ofParsed, SolveArgs.put, SolveArgs.default, path?, convoySolveArgs]
  have hp := Encoding.convoy.read_text (by decide)
  have htarget : convoyDirectory.target? "schedule".toList =
      some (.file ["schedule".toList]) := by
    decide +kernel
  have haccepts : Accepts convoyDirectory (some "schedule".toList) := by
    intro path hpath text
    cases hpath
    rw [Directory.store, htarget]
  have hsolve := solve_then_verify (w := quietSurroundings) Solver.any_keeps hargs rfl
    load_convoyDirectory.1 hp trivial haccepts
  have hsolution : IsSolution Encoding.convoy 2 ⟨[[0, 0, 1], [1, 1, 2]]⟩ :=
    (Schedule.violations_eq_nil_iff (by decide)).mp (by decide)
  have hfits : KeyTable.Fits 2 2 3 := by decide
  have hcode := hsolve.1.mpr ⟨2, Nat.zero_le _, by decide, feasible_iff.mpr ⟨_, hsolution⟩,
    fun j _ hj => Search.manageable_of_fits Solver.exists_lit_any (hfits.mono hj)⟩
  obtain ⟨m, s, _, _, hs, _, hdelivered⟩ := hsolve.2.1 hcode
  exact ⟨hargs, hp, haccepts, hcode, m, s, hs, hdelivered⟩

end

/-- No nodes, no edges, no agents. -/
def desertedText : List Char := "0\n0\n0\n".toList

def desertedSolveArgs : SolveArgs :=
  ⟨some "z".toList, wordBound - 1, wordBound - 1, none, .reachability, none⟩

section

attribute [local instance] Memory.ample

/-- Nobody can wait for as long as one likes, but there is no room for the times. -/
theorem solve_fails_deserted : quietSurroundings.solver.Keeps ∧
    Request.ofArgs ["solve".toList, "--input".toList, "z".toList, "--min-makespan".toList,
      "18446744073709551615".toList] = .run (.solve desertedSolveArgs) ∧
    (Directory.ofFiles bareSystem [("z".toList, desertedText)]).load? "z".toList =
      some (.ofText desertedText) ∧
    Problem.read (.ofText desertedText) = .ok Encoding.deserted ∧
    Calm quietSurroundings desertedSolveArgs Encoding.deserted ∧
    Accepts (.ofFiles bareSystem [("z".toList, desertedText)]) none ∧
    Feasible Encoding.deserted (wordBound - 1) ∧
    (runArgs quietSurroundings (.ofFiles bareSystem [("z".toList, desertedText)]) ["solve".toList,
      "--input".toList, "z".toList, "--min-makespan".toList,
      "18446744073709551615".toList]).status.code = 1 := by
  have hnumber : number? ['1', '8', '4', '4', '6', '7', '4', '4', '0', '7', '3', '7', '0', '9', '5',
      '5', '1', '6', '1', '5'] = some (wordBound - 1) := by
    decide +kernel
  have hargs : Request.ofArgs ["solve".toList, "--input".toList, "z".toList,
      "--min-makespan".toList, "18446744073709551615".toList] =
      .run (.solve desertedSolveArgs) := by
    simp [Request.ofArgs, Topic.ofName?, parseOptions, asksForHelp, splitOption?, solveOptions,
      Request.ofParsed, SolveArgs.put, SolveArgs.default, path?, looksLikeOption, hnumber,
      desertedSolveArgs]
  have hfile : (Directory.ofFiles bareSystem [("z".toList, desertedText)]).load? "z".toList =
      some (.ofText desertedText) := by
    decide +kernel
  have haccepts : Accepts (.ofFiles bareSystem [("z".toList, desertedText)]) none := by
    intro path hpath
    cases hpath
  have hfeasible : Feasible Encoding.deserted (wordBound - 1) := ⟨⟨[]⟩, by simp, by decide⟩
  refine ⟨Solver.any_keeps, hargs, hfile, rfl, trivial, haccepts, hfeasible, ?_⟩
  have hlack : KeyTable.lack? (wordBound - 1) 0 0 = some .tooLarge := by decide
  have honly : ∀ m, wordBound - 1 ≤ m → m ≤ wordBound - 1 → m = wordBound - 1 :=
    fun m hfirst hlast => Nat.le_antisymm hlast hfirst
  rcases solve_cases (w := quietSurroundings) Solver.any_keeps hargs rfl hfile rfl trivial
    haccepts with ⟨m, s, hfirst, hlast, _, hall, _⟩ |
      ⟨_, ⟨⟨m, hfirst, hlast, hout, _⟩, _⟩ | ⟨_, hfailed⟩⟩
  · obtain rfl := honly m hfirst hlast
    cases (hall _ hfirst (Nat.le_refl _)).fits.lack?.symm.trans hlack
  · obtain rfl := honly m hfirst hlast
    cases hlack.symm.trans hout
  · rw [hfailed]
    rfl

end

end Cli

end AgentPaths
