import AgentPaths.ReadError
import AgentPaths.Schedule
import AgentPaths.Text.Blank
import AgentPaths.Text.Line
import AgentPaths.Text.Number

/-!
The text of a schedule: one line for each path, its nodes apart by blanks. There are no comments; an
empty line is an empty path, and only at the end of a file does it mean nothing.
-/
namespace AgentPaths.Schedule

open Text

def pathLine (path : List Nat) : List Char := [' '].intercalate (path.map decimal)

def text (s : Schedule) : List Char := unlines (s.paths.map pathLine)

/-- The path on a line of a file; lines are counted from 0 here, as the agents are. -/
def readPath (index : Nat) : Option (List Char) → Except ReadError (List Nat)
  | none => .error .undecodable
  | some line => match numbers? (chomp line) with
    | some path => .ok path
    | none => .error (.malformed (index + 1) (.path index) (chomp line))

/-- Paths without the empty ones at their end. -/
def dropTrailing (paths : List (List Nat)) : List (List Nat) :=
  (paths.reverse.dropWhile List.isEmpty).reverse

def read (file : Source) : Except ReadError Schedule := do
  let paths ← file.zipIdx.mapM fun (line, index) => readPath index line
  return ⟨dropTrailing paths⟩

theorem dropTrailing_concat {paths : List (List Nat)} {path : List Nat} (h : path ≠ []) :
    dropTrailing (paths ++ [path]) = paths ++ [path] := by
  simp [dropTrailing, h]

theorem dropTrailing_concat_nil (paths : List (List Nat)) :
    dropTrailing (paths ++ [[]]) = dropTrailing paths := by
  simp [dropTrailing]

end AgentPaths.Schedule
