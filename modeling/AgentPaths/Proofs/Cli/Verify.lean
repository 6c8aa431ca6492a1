import AgentPaths.Cli.Directory
import AgentPaths.Proofs.Encoding.Models
import AgentPaths.Proofs.Problem.RoundTrip
import AgentPaths.Proofs.Schedule.Acceptance
import AgentPaths.Proofs.Schedule.Reading

/-!
Checking a file with a result. The check is passed exactly if the lines of the file, up to the last
one that is not blank, are the paths of a solution.
-/
namespace AgentPaths.Cli

open Text

variable {w : Surroundings} {output : List Char} {d : Directory} {path : Path} {file : Source}

namespace Script

section LoadWith

variable {α : Type} {read : Source → Except ReadError α} {next : α → Script}

theorem run_loadWith [Memory] {a : α} (hfile : d.load? path = some file)
    (hread : read file = .ok a) :
    (loadWith path read next).run w output d = (next a).run w output d := by
  rw [loadWith, run, hfile]
  dsimp only
  rw [hread]

theorem run_loadWith_failed [Memory] {e : ReadError} (hfile : d.load? path = some file)
    (hread : read file = .error e) :
    (loadWith path read next).run w output d = ⟨.failed, output, d⟩ := by
  rw [loadWith, run, hfile]
  dsimp only
  rw [hread]
  rfl

end LoadWith

variable {a : VerifyArgs} {p : Problem} {result : Source} {s : Schedule}

theorem run_verify [Memory] (hgrid : a.showAsGrid = false) (hgraph : d.load? a.graph = some file)
    (hp : Problem.read file = .ok p) (hresult : d.load? a.result = some result)
    (hs : Schedule.read result = .ok s) : (verify a).run w output d =
      ⟨verdict p s, output ++ unlines (reportLines p s), d⟩ := by
  rw [verify, run_loadWith hgraph hp, run_loadWith hresult hs, run, hgrid]
  rfl

theorem run_verify_failed [Memory] {e : ReadError} (hgraph : d.load? a.graph = some file)
    (hp : Problem.read file = .ok p) (hresult : d.load? a.result = some result)
    (hs : Schedule.read result = .error e) : (verify a).run w output d = ⟨.failed, output, d⟩ := by
  rw [verify, run_loadWith hgraph hp, run_loadWith_failed hresult hs]

end Script

/-- What is read and accepted is a solution. -/
theorem isSolution_of_read {p : Problem} {result : Source} {s : Schedule}
    (hs : Schedule.read result = .ok s) (hviolations : s.violations p = []) :
    ∃ m, IsSolution p m s := by
  rcases Schedule.isSolution_or_void hviolations with hsolution | ⟨hne, hvoid⟩
  · exact hsolution
  · -- paths without nodes would have been dropped, the last one first
    have hlast := List.getLast?_eq_some_getLast hne
    rw [hvoid _ (List.getLast_mem hne)] at hlast
    exact absurd hlast (Schedule.getLast?_ne_of_read hs)

theorem code_verdict {p : Problem} {s : Schedule} :
    (Script.verdict p s).code = if s.violations p = [] then 0 else 1 := by
  unfold Script.verdict
  split
  next => rfl
  next => rfl

/-- The lines of a text, up to the last one that is not blank, are rows of numbers, one for each
agent, and these are a solution of some number of steps. -/
def HoldsSolution (p : Problem) (text : List Char) : Prop :=
  ∃ m paths, List.Forall₂ AgentPaths.Row (Schedule.keptLines text) paths ∧ IsSolution p m ⟨paths⟩

theorem holdsSolution_iff {p : Problem} {text : List Char} : HoldsSolution p text ↔
    ∃ s, Schedule.read (.ofUTF8 text) = .ok s ∧ s.violations p = [] := by
  constructor
  · intro h
    obtain ⟨m, paths, hrows, hsolution⟩ := h
    exact ⟨⟨paths⟩, Schedule.read_eq_ok.mpr hrows, hsolution.violations_eq_nil⟩
  · intro h
    obtain ⟨s, hs, hviolations⟩ := h
    obtain ⟨m, hsolution⟩ := isSolution_of_read hs hviolations
    exact ⟨m, s.paths, Schedule.read_eq_ok.mp hs, hsolution⟩

/-- Checking a text against a problem, without drawing it, ends with 0 exactly if the text holds a
solution. Else it ends with 1. -/
theorem code_verify [Memory] {args : List (List Char)} {a : VerifyArgs} {p : Problem}
    {text : List Char}
    (hargs : Request.ofArgs args = .run (.verify a)) (hgrid : a.showAsGrid = false)
    (hgraph : d.load? a.graph = some file) (hp : Problem.read file = .ok p)
    (hresult : d.load? a.result = some (.ofUTF8 text)) :
    ((runArgs w d args).status.code = 0 ↔ HoldsSolution p text) ∧
    ((runArgs w d args).status.code = 0 ∨ (runArgs w d args).status.code = 1) := by
  have hrun : runArgs w d args = (Script.verify a).run w [] d := by
    rw [runArgs, hargs]
    rfl
  rw [hrun, holdsSolution_iff]
  cases hs : Schedule.read (.ofUTF8 text) with
  | error e =>
    rw [Script.run_verify_failed hgraph hp hresult hs]
    exact ⟨iff_of_false Nat.one_ne_zero (by simp), Or.inr rfl⟩
  | ok s =>
    have hcode : ((Script.verify a).run w [] d).status.code =
        if s.violations p = [] then 0 else 1 := by
      rw [Script.run_verify hgrid hgraph hp hresult hs, code_verdict]
    rw [hcode]
    by_cases hviolations : s.violations p = []
    · rw [if_pos hviolations]
      exact ⟨iff_of_true rfl ⟨s, rfl, hviolations⟩, Or.inl rfl⟩
    · rw [if_neg hviolations]
      exact ⟨iff_of_false Nat.one_ne_zero (by simpa using hviolations), Or.inr rfl⟩

/-- A result for the convoy, with a carriage return, a plus, a zero in front and blank lines at the
end. -/
def convoyResult : List Char := "0 0 1\r\n+1 01 2\n \n\n".toList

/-- A system with nothing but the directory in it. -/
def bareSystem : System := ⟨[], [], []⟩

/-- Surroundings in which no budget ever runs out. -/
def quietSurroundings : Surroundings := ⟨.any, 0, fun _ _ _ => none⟩

/-- A directory with the convoy and a result for it. -/
def convoyDirectory : Directory :=
  .ofFiles bareSystem [("problem".toList, Encoding.convoy.text), ("result".toList, convoyResult)]

theorem load_convoyDirectory :
    convoyDirectory.load? "problem".toList = some (.ofUTF8 Encoding.convoy.text) ∧
    convoyDirectory.load? "result".toList = some (.ofUTF8 convoyResult) := by
  rw [ofUTF8_eq_ofText, ofUTF8_eq_ofText]
  exact ⟨by decide +kernel, by decide +kernel⟩

section

attribute [local instance] Memory.ample

theorem code_verify_convoy :
    Request.ofArgs ["verify".toList, "--graph=problem".toList, "--result".toList, "result".toList] =
      .run (.verify ⟨"problem".toList, "result".toList, false⟩) ∧
    Problem.read (.ofUTF8 Encoding.convoy.text) = .ok Encoding.convoy ∧
    (runArgs quietSurroundings convoyDirectory
      ["verify".toList, "--graph=problem".toList, "--result".toList, "result".toList]).status.code =
      0 := by
  have hargs : Request.ofArgs
      ["verify".toList, "--graph=problem".toList, "--result".toList, "result".toList] =
      .run (.verify ⟨"problem".toList, "result".toList, false⟩) := by
    simp [Request.ofArgs, Topic.ofName?, parseOptions, asksForHelp, splitOption?, verifyOptions,
      Request.ofParsed, VerifyOptions.args?, VerifyOptions.put, path?, looksLikeOption]
  have hp := Encoding.convoy.read_text (by decide)
  have hrows : List.Forall₂ AgentPaths.Row (Schedule.keptLines convoyResult)
      [[0, 0, 1], [1, 1, 2]] := by
    have hlines : Schedule.keptLines convoyResult = ["0 0 1\r".toList, "+1 01 2".toList] := by
      decide +kernel
    rw [hlines]
    simp only [List.forall₂_cons, List.Forall₂.nil, AgentPaths.Row, ← numbers?_eq_some]
    decide
  have hsolution : IsSolution Encoding.convoy 2 ⟨[[0, 0, 1], [1, 1, 2]]⟩ :=
    (Schedule.violations_eq_nil_iff (by decide)).mp (by decide)
  have hcode := code_verify (w := quietSurroundings) hargs rfl
    load_convoyDirectory.1 hp load_convoyDirectory.2
  exact ⟨hargs, hp, hcode.1.mpr ⟨2, _, hrows, hsolution⟩⟩

end

end AgentPaths.Cli
