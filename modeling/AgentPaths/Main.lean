import AgentPaths.Cli.Script

/-!
The program: carries out the script of its command line on the files of the system.
-/
namespace AgentPaths.Main

open AgentPaths.Cli

-- what is too much for the system is found out when it is asked for
attribute [local instance] Memory.ample

/-- Makes the attempts from makespan `m` on, one after the other, until the deadline has passed. -/
partial def searchUntil (p : Problem) (config : SearchConfig) (deadline : Option Nat) (m : Nat)
    (s : Search.State p.graph Unit) : IO Search.Result := do
  if config.maxMakespan < m then return .ok .exhausted
  let late ← match deadline with
    | none => pure false
    | some time => do pure (time ≤ (← IO.monoMsNow))
  if late then return .ok (.aborted m)
  match Search.attempt p (Adapter.oracle Solver.any) none m s with
  | (_, some result) => return result
  | (s, none) => searchUntil p config deadline (m + 1) s

/-- A search; even the smallest budget leaves it 50 milliseconds. -/
def search (p : Problem) (config : SearchConfig) (budget : Option Nat) : IO Search.Result := do
  let now ← IO.monoMsNow
  searchUntil p config (budget.map fun time => now + max time 50) config.minMakespan
    (.start p config.pruning none ())

/-- The lines of a file, if it can be opened. What can be opened but not read, such as a directory,
has one line that is no text. -/
def load (path : String) : IO (Option Text.Source) := do
  let file? ← try some <$> IO.FS.Handle.mk path .read catch _ => pure none
  match file? with
  | none => return none
  | some file =>
    try return some (.ofBytes (← file.readBinToEnd))
    catch _ => return some [none]

def store (path : String) (text : String) : IO Stored := do
  let file? ← try some <$> IO.FS.Handle.mk path .write catch _ => pure none
  match file? with
  | none => return .notCreated
  | some file =>
    try
      file.putStr text
      file.flush
      return .written
    catch _ => return .notWritten

def perform : Script → IO UInt32
  | .stop status => pure (UInt32.ofNat status.code)
  | .print text next => do
    IO.print (String.ofList text)
    perform next
  | .load path next => do perform (next (← load (String.ofList path)))
  | .store path text next => do
    perform (next (← store (String.ofList path) (String.ofList text)))
  | .drawSeed next => do perform (next (← IO.rand 0 (wordBound - 1)))
  | .search p config budget next => do perform (next (← search p config budget))

def run (args : List String) : IO UInt32 :=
  perform (Script.ofRequest (Request.ofArgs (args.map String.toList)))

end AgentPaths.Main

def main (args : List String) : IO UInt32 := AgentPaths.Main.run args
