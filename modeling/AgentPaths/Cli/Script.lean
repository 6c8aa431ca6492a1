import AgentPaths.Cli.Help
import AgentPaths.Grid.Drawing
import AgentPaths.Grid.Random
import AgentPaths.Problem.Reader
import AgentPaths.Problem.Writer
import AgentPaths.Random.Shuffle
import AgentPaths.Schedule.Text
import AgentPaths.Schedule.Violation

/-!
What a command does, as a tree of its dealings with the world: it loads and stores files, prints,
draws a seed, and searches. The tree says what comes next for every answer of the world; it does not
say what the world answers.
-/
namespace AgentPaths.Cli

open Text

inductive Status where
  | done
  /-- No schedule was found, or something is wrong with the data. -/
  | failed
  /-- A file cannot be opened or created, or the command line is wrong. -/
  | unusable
  | noInput
  /-- A grid is larger than can be handled. -/
  | tooLarge
  /-- The process has been ended because it asked for more memory than there is. -/
  | aborted
deriving DecidableEq

def Status.code : Status → Nat
  | done => 0
  | failed => 1
  | unusable => 2
  | noInput => 3
  | tooLarge => 101
  | aborted => 134

inductive Stored where
  | written
  | notCreated
  /-- The file has been created, but it does not take the text. -/
  | notWritten
deriving DecidableEq

inductive Script where
  | stop (status : Status)
  | print (text : List Char) (next : Script)
  /-- Loads a file; there is no answer if it cannot be opened. -/
  | load (path : Path) (next : Option Source → Script)
  | store (path : Path) (text : List Char) (next : Stored → Script)
  | drawSeed (next : Nat → Script)
  /-- Searches, with a budget in milliseconds if there is one. -/
  | search (p : Problem) (config : SearchConfig) (budget : Option Nat)
      (next : Search.Result → Script)

namespace Script

/-- Writes a text to a file or to the standard output. -/
def emit (output : Option Path) (text : List Char) (next : Script) : Script :=
  match output with
  | none => .print text next
  | some path => .store path text fun
    | .written => next
    | .notCreated => .stop .unusable
    | .notWritten => .stop .failed

def loadWith (path : Path) (read : Source → Except ReadError α) (next : α → Script) : Script :=
  .load path fun
    | none => .stop .unusable
    | some file => match read file with
      | .error _ => .stop .failed
      | .ok a => next a

/-- What follows a search: the schedule is written if there is one. A search that has come upon a
misuse is only reported, but without memory there is no report either. -/
def finish (output : Option Path) : Search.Result → Script
  | .ok (.solved _ s) => emit output s.text (.stop .done)
  | .error (.decode (.misuse .outOfMemory)) => .stop .aborted
  | .error (.oracle (.misuse .outOfMemory)) => .stop .aborted
  | _ => .stop .failed

/-- Searches for a schedule of the problem `p` and writes it. -/
def solveProblem (a : SolveArgs) (p : Problem) (budget : Option Nat) : Script :=
  .search p ⟨a.minMakespan, a.maxMakespan, a.pruning⟩ budget (finish a.output)

def solve [Memory] (a : SolveArgs) : Script :=
  match a.input with
  | none => .stop .noInput
  | some path => loadWith path Problem.read fun p =>
    match a.maxTime with
    | none => solveProblem a p none
    | some time => match time.budget? with
      | none => .stop .failed
      | some budget => solveProblem a p (some budget)

/-- The lines of a check: every violation, and that the check is over. -/
def reportLines (p : Problem) (s : Schedule) : List (List Char) :=
  (s.violations p).map (fun v => v.message.toList) ++ ["Verification done".toList]

def showText (g : Grid) (s : Schedule) : List Char :=
  "Showing time steps:\n".toList ++
    (List.range (s.makespan?.getD 0 + 1)).flatMap fun t =>
      unlines ["t=".toList ++ decimal t, g.render s t]

def verdict (p : Problem) (s : Schedule) : Status :=
  if s.violations p = [] then .done else .failed

def verify [Memory] (a : VerifyArgs) : Script :=
  loadWith a.graph Problem.read fun p =>
  loadWith a.result Schedule.read fun s =>
  .print (unlines (reportLines p s)) <|
    if a.showAsGrid then
      match Grid.ofProblem? p with
      | none => .stop .failed
      | some g => .print (showText g s) (.stop (verdict p s))
    else .stop (verdict p s)

def generateFrom [Memory] (a : GenerateArgs) (seed : Nat) : Script :=
  match Grid.random Shuffle.shuffle a.size a.size_pos a.wallPercent a.agentPercent
    ⟨UInt64.ofNat seed⟩ with
  | .error (.invalid _) => .stop .failed
  | .error (.misuse .outOfMemory) => .stop .aborted
  | .error (.misuse _) => .stop .tooLarge
  | .ok g => emit a.output g.problem.text <|
    match a.display with
    | none => .stop .done
    | some output => emit output g.layout (.stop .done)

def generate [Memory] (a : GenerateArgs) : Script :=
  match a.seed with
  | some seed => generateFrom a seed
  | none => .drawSeed (generateFrom a)

/-- What is done for a request; a command line that is wrong does nothing. -/
def ofRequest [Memory] : Request → Script
  | .run (.solve a) => solve a
  | .run (.verify a) => verify a
  | .run (.generate a) => generate a
  | .help topic => .print (unlines (topic.lines.map String.toList)) (.stop .done)
  | .version => .print (unlines [versionLine.toList]) (.stop .done)
  | .misuse => .stop .unusable

end Script

end AgentPaths.Cli
