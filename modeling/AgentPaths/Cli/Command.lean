import AgentPaths.Cli.Option
import AgentPaths.Cli.Seconds
import AgentPaths.Search

/-!
The commands with their arguments: finding a schedule, checking one, and making a problem.
-/
namespace AgentPaths.Cli

open Text

/-- The name of a file, which is not empty. -/
abbrev Path := List Char

structure SolveArgs where
  input : Option Path
  minMakespan : Nat
  maxMakespan : Nat
  maxTime : Option Seconds
  pruning : Pruning
  output : Option Path

structure VerifyArgs where
  graph : Path
  result : Path
  showAsGrid : Bool

/-- The arguments of a check before it is known that the files have been named. -/
structure VerifyOptions where
  graph : Option Path
  result : Option Path
  showAsGrid : Bool

structure GenerateArgs where
  size : Nat
  size_pos : 0 < size
  wallPercent : Nat
  agentPercent : Nat
  seed : Option Nat
  output : Option Path
  /-- Whether to draw the grid, and the file for it if it has one. -/
  display : Option (Option Path)

inductive Command where
  | solve (args : SolveArgs)
  | verify (args : VerifyArgs)
  | generate (args : GenerateArgs)

def path? (s : List Char) : Option Path := if s = [] then none else some s

def solveOptions : List OptionSpec :=
  [⟨"input", .one, "INPUT", "Problem file to solve [required]", none⟩,
    ⟨"min-makespan", .one, "MIN_MAKESPAN", "Smallest makespan to try", some "0"⟩,
    ⟨"max-makespan", .one, "MAX_MAKESPAN", "Largest makespan to try", some "18446744073709551615"⟩,
    ⟨"max-time", .one, "MAX_TIME", "Give up after this many seconds", none⟩,
    ⟨"no-mdd", .flag, "", "Allocate every variable instead of only the reachable ones", none⟩,
    ⟨"output", .one, "OUTPUT", "Where to write the schedule; standard output if absent", none⟩]

def SolveArgs.default : SolveArgs := ⟨none, 0, wordBound - 1, none, .reachability, none⟩

def SolveArgs.put (a : SolveArgs) (name : String) (value : Option (List Char)) : Option SolveArgs :=
  match name, value with
  | "input", some v => (path? v).map fun p => { a with input := some p }
  | "min-makespan", some v => (number? v).map fun n => { a with minMakespan := n }
  | "max-makespan", some v => (number? v).map fun n => { a with maxMakespan := n }
  | "max-time", some v => (Seconds.ofText? v).map fun t => { a with maxTime := some t }
  | "no-mdd", none => some { a with pruning := .disabled }
  | "output", some v => (path? v).map fun p => { a with output := some p }
  | _, _ => none

def verifyOptions : List OptionSpec :=
  [⟨"graph", .one, "GRAPH", "Problem file", none⟩,
    ⟨"result", .one, "RESULT", "Result file produced for that problem", none⟩,
    ⟨"show-as-grid", .flag, "", "Print every time step; the problem must be a square grid", none⟩]

def VerifyOptions.put (a : VerifyOptions) (name : String) (value : Option (List Char)) :
    Option VerifyOptions :=
  match name, value with
  | "graph", some v => (path? v).map fun p => { a with graph := some p }
  | "result", some v => (path? v).map fun p => { a with result := some p }
  | "show-as-grid", none => some { a with showAsGrid := true }
  | _, _ => none

/-- The arguments of a check, if both files are named. -/
def VerifyOptions.args? (a : VerifyOptions) : Option VerifyArgs :=
  match a.graph, a.result with
  | some graph, some result => some ⟨graph, result, a.showAsGrid⟩
  | _, _ => none

def generateOptions : List OptionSpec :=
  [⟨"size", .one, "SIZE", "Side of the grid", some "4"⟩,
    ⟨"wall-percent", .one, "WALL_PERCENT", "Percentage of cells which are walls", some "20"⟩,
    ⟨"agent-percent", .one, "AGENT_PERCENT", "Percentage of cells which hold an agent", some "10"⟩,
    ⟨"seed", .one, "SEED", "Seed for the generator; random if absent", none⟩,
    ⟨"output", .one, "OUTPUT", "Where to write the problem; standard output if absent", none⟩,
    ⟨"display", .optional, "DISPLAY", "Draw the grid, to the given file or standard output", none⟩]

theorem defaultSize_pos : 0 < 4 := Nat.succ_pos 3

def GenerateArgs.default : GenerateArgs := ⟨4, defaultSize_pos, 20, 10, none, none, none⟩

def GenerateArgs.put (a : GenerateArgs) (name : String) (value : Option (List Char)) :
    Option GenerateArgs :=
  match name, value with
  | "size", some v => (number? v).bind fun n =>
    if h : 0 < n then some { a with size := n, size_pos := h } else none
  | "wall-percent", some v => (number? v).map fun n => { a with wallPercent := n }
  | "agent-percent", some v => (number? v).map fun n => { a with agentPercent := n }
  | "seed", some v => (number? v).map fun n => { a with seed := some n }
  | "output", some v => (path? v).map fun p => { a with output := some p }
  | "display", some v => (path? v).map fun p => { a with display := some (some p) }
  | "display", none => some { a with display := some none }
  | _, _ => none

inductive Topic where
  | program
  | solve
  | verify
  | generate
  | help
deriving DecidableEq

inductive Request where
  | run (c : Command)
  | help (topic : Topic)
  | version
  | misuse

/-- The request of a command with its options read. -/
def Request.ofParsed (topic : Topic) (command? : α → Option Command) : Except Stop α → Request
  | .ok a => match command? a with
    | some c => .run c
    | none => .misuse
  | .error .help => .help topic
  | .error .misuse => .misuse

def Topic.ofName? (name : List Char) : Option Topic :=
  if name = "solve".toList then some .solve
  else if name = "verify".toList then some .verify
  else if name = "generate".toList then some .generate
  else if name = "help".toList then some .help
  else none

def Request.ofArgs : List (List Char) → Request
  | [] => .misuse
  | first :: rest =>
    if asksForHelp first then .help .program
    else if first = "--version".toList ∨ first.take 2 = ['-', 'V'] then .version
    else match Topic.ofName? first with
      | some .solve => .ofParsed .solve (some ∘ Command.solve)
        (parseOptions solveOptions SolveArgs.put [] SolveArgs.default rest)
      | some .verify => .ofParsed .verify (fun a => a.args?.map .verify)
        (parseOptions verifyOptions VerifyOptions.put [] ⟨none, none, false⟩ rest)
      | some .generate => .ofParsed .generate (some ∘ Command.generate)
        (parseOptions generateOptions GenerateArgs.put [] GenerateArgs.default rest)
      | some _ => match rest with
        | [] => .help .program
        | [name] => match Topic.ofName? name with
          | some topic => .help topic
          | none => .misuse
        | _ => .misuse
      | none => .misuse

end AgentPaths.Cli
