import AgentPaths.Cli.Script

/-!
Scripts carried out on a directory of text files, as a function. The directory lies in a system of
other directories and of devices. A path is followed name by name, and every name but the last has
to be that of a directory; the last may be missing, and a file can then be created under it.
-/
namespace AgentPaths.Cli

open Text

/-- The names that lead to a file or a directory from the root of the system. -/
abbrev Location := List (List Char)

/-- A file that keeps nothing of what is stored in it. -/
inductive Device where
  | empty
  /-- Holds bytes that are no lines of numbers. -/
  | foreign
  /-- Holds bytes without end, and has no room for others. -/
  | full
  | output
deriving DecidableEq

inductive Target where
  | directory
  | device (x : Device)
  /-- A text file, or the place for one. -/
  | file (l : Location)
deriving DecidableEq

/-- What there is around the directory, whatever files there are. -/
structure System where
  /-- Where the directory lies. -/
  base : Location
  directories : List Location
  devices : List (Location × Device)

/-- Where a path begins. -/
def System.origin (system : System) (path : Path) : Location :=
  if path.head? = some '/' then [] else system.base

structure Directory where
  system : System
  /-- The text files, in the directory and outside of it. -/
  files : List (Location × List Char)

namespace Directory

/-- The names of a path, each with the slash behind it. -/
def names (path : Path) : List (List Char) := pieces (· == '/') path

/-- A name without the slash behind it. -/
def bare (name : List Char) : List Char := name.filter (· != '/')

def device? (d : Directory) (l : Location) : Option Device := d.system.devices.lookup l

def isDirectory (d : Directory) (l : Location) : Bool :=
  l.isPrefixOf d.system.base || d.system.directories.contains l ||
    d.files.any fun f => l.isPrefixOf f.1 && l != f.1

def bytes (s : List Char) : Nat := s.foldl (fun n c => n + c.utf8Size) 0

def nameLimit : Nat := 255

def pathLimit : Nat := 4095

def step (l : Location) (name : List Char) : Location :=
  if name = [] ∨ name = ['.'] then l
  else if name = ['.', '.'] then l.dropLast
  else l ++ [name]

/-- Follows names from a location; a name with a slash behind it has to lead to a directory. -/
def follow (d : Directory) (l : Location) : List (List Char) → Option Location
  | [] => some l
  | name :: rest =>
    let next := step l (bare name)
    if nameLimit < bytes (bare name) then none
    else if name.getLast? = some '/' ∧ d.isDirectory next = false then none
    else follow d next rest

def target? (d : Directory) (path : Path) : Option Target :=
  if path = [] ∨ pathLimit < bytes path then none
  else (d.follow (d.system.origin path) (names path)).map fun l =>
    if d.isDirectory l then .directory
    else match d.device? l with
      | some x => .device x
      | none => .file l

def ofFiles (system : System) (files : List (Path × List Char)) : Directory where
  system
  files := files.map fun (path, text) =>
    ((names path).foldl (step · <| bare ·) (system.origin path), text)

def text? (d : Directory) (path : Path) : Option (List Char) :=
  match d.target? path with
  | some (.file l) => d.files.lookup l
  | some (.device .empty) => some []
  | _ => none

/-- What is found where a path leads to. Directories and devices with bytes in them can be opened,
but they hold no line of text. -/
def load? (d : Directory) (path : Path) : Option Source :=
  match d.target? path with
  | none => none
  | some .directory => some [none]
  | some (.device .empty) => some []
  | some (.device _) => some [none]
  | some (.file l) => (d.files.lookup l).map .ofText

def put (d : Directory) (l : Location) (text : List Char) : Directory :=
  { d with files := d.files.filter (·.1 != l) ++ [(l, text)] }

/-- Stores a text where a path leads to: what comes of it, what is printed, and the directory
then. -/
def store (d : Directory) (path : Path) (text : List Char) : Stored × List Char × Directory :=
  match d.target? path with
  | none => (.notCreated, [], d)
  | some .directory => (.notCreated, [], d)
  | some (.device .full) => (if text = [] then .written else .notWritten, [], d)
  | some (.device .output) => (.written, text, d)
  | some (.device _) => (.written, [], d)
  | some (.file l) => (.written, [], d.put l text)

end Directory

/-- What the world outside of the directory does. -/
structure Surroundings where
  solver : Solver
  seed : Nat
  /-- When a budget of so many milliseconds runs out during a search. -/
  expiry : Problem → SearchConfig → Nat → Timeline

def Surroundings.timeline (w : Surroundings) (p : Problem) (config : SearchConfig)
    (budget : Option Nat) : Timeline :=
  budget.bind (w.expiry p config)

structure Ending where
  status : Status
  output : List Char
  directory : Directory

/-- Carries out a script, with `output` printed before. -/
def Script.run [Memory] (w : Surroundings) (output : List Char) (d : Directory) : Script → Ending
  | .stop status => ⟨status, output, d⟩
  | .print text next => next.run w (output ++ text) d
  | .load path next => (next (d.load? path)).run w output d
  | .store path text next =>
    let (stored, printed, d) := d.store path text
    (next stored).run w (output ++ printed) d
  | .drawSeed next => (next w.seed).run w output d
  | .search p config budget next =>
    let result := (Search.run p (Adapter.oracle w.solver) (w.timeline p config budget) config ()).2
    (next result).run w output d

def runArgs [Memory] (w : Surroundings) (d : Directory) (args : List (List Char)) : Ending :=
  (Script.ofRequest (Request.ofArgs args)).run w [] d

end AgentPaths.Cli
