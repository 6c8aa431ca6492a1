import AgentPaths.Defect
import AgentPaths.Text.Quoted

/-!
Why a file could not be read. Lines are counted from 1.
-/
namespace AgentPaths

/-- What a reader expects next; edges, agents and paths are counted from 0. -/
inductive Item where
  | nodeCount
  | edgeCount
  | edge (index : Nat)
  | agentCount
  | agent (index : Nat)
  | path (index : Nat)
deriving DecidableEq

def Item.hint : Item → String
  | nodeCount => "Expecting number of nodes in graph"
  | edgeCount => "Expecting number of edges in graph"
  | edge index => s!"Expecting edge #{index}"
  | agentCount => "Expecting number of agents"
  | agent index => s!"Expecting agent #{index}"
  | path index => s!"Expecting path of agent #{index}"

inductive ReadError where
  /-- The bytes of the line that was to be read are not text. -/
  | undecodable
  /-- The file ended; `line` is the one that would have come next. -/
  | endOfFile (line : Nat) (item : Item)
  /-- The line is there but does not hold the item. -/
  | malformed (line : Nat) (item : Item) (content : List Char)
  /-- The file can be read but describes no instance. -/
  | defect (line : Nat) (d : Defect)
deriving DecidableEq

def ReadError.message : ReadError → String
  | undecodable => "stream did not contain valid UTF-8"
  | endOfFile line item => s!"couldn't parse file at line {line}; hint: {item.hint}"
  | malformed line item content =>
    s!"couldn't parse line {line} ({String.ofList (Text.quoted content)}); hint: {item.hint}"
  | defect line d => s!"invalid instance at line {line}: {d.message}"

end AgentPaths
