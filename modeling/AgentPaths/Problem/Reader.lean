import AgentPaths.Problem
import AgentPaths.ReadError
import AgentPaths.Text.Line
import AgentPaths.Text.Number

/-!
Reading a problem. Blank lines and comments are set aside first, by `records`; what is left is read
against what the place demands: the number of nodes, the number of edges and each edge, the number
of agents and each agent. Lines after the last agent are never looked at.
-/
namespace AgentPaths

open Text

inductive Record where
  /-- Line `line` of the file holds `content` between its blanks. -/
  | data (line : Nat) (content : List Char)
  | undecodable

/-- Lines that are blank or whose first character behind the blanks is `#` hold no data. -/
def holdsData (content : List Char) : Bool := !content.isEmpty && content.head? != some '#'

/-- The records among the lines from number `line` on. -/
def records (line : Nat) : Source → List Record
  | [] => []
  | none :: rest => .undecodable :: records (line + 1) rest
  | some l :: rest =>
    if holdsData (trim l) then .data line (trim l) :: records (line + 1) rest
    else records (line + 1) rest

namespace Reader

/-- The next record, which has to hold `item`. In a file that ends too early the fault is on line
`fin`, the one after its last. -/
def next (fin : Nat) (item : Item) : List Record → Except ReadError (Nat × List Char × List Record)
  | [] => .error (.endOfFile fin item)
  | .undecodable :: _ => .error .undecodable
  | .data line content :: rest => .ok (line, content, rest)

def one (fin : Nat) (item : Item) (rs : List Record) : Except ReadError (Nat × Nat × List Record) :=
  match next fin item rs with
  | .error e => .error e
  | .ok (line, content, rest) => match numbers? content with
    | some [n] => .ok (line, n, rest)
    | _ => .error (.malformed line item content)

def two (fin : Nat) (item : Item) (rs : List Record) :
    Except ReadError (Nat × (Nat × Nat) × List Record) :=
  match next fin item rs with
  | .error e => .error e
  | .ok (line, content, rest) => match numbers? content with
    | some [u, v] => .ok (line, (u, v), rest)
    | _ => .error (.malformed line item content)

/-- Adds `todo` edges to a graph, the first of them being number `index`. -/
def edges (fin : Nat) (index : Nat) (g : Graph) (rs : List Record) :
    Nat → Except ReadError (Graph × List Record)
  | 0 => .ok (g, rs)
  | todo + 1 => match two fin (.edge index) rs with
    | .error e => .error e
    | .ok (line, (u, v), rest) => match g.addEdge u v with
      | .error d => .error (.defect line d)
      | .ok g => edges fin (index + 1) g rest todo

/-- Reads `todo` agents on a graph of `n` nodes, the first of them being number `index`; each comes
with its line. -/
def agents (fin : Nat) (n index : Nat) (rs : List Record) :
    Nat → Except ReadError (List (Nat × Agent))
  | 0 => .ok []
  | todo + 1 => match two fin (.agent index) rs with
    | .error e => .error e
    | .ok (line, (initial, goal), rest) =>
      if n ≤ initial then .error (.defect line (.nodeOutOfRange initial n))
      else if n ≤ goal then .error (.defect line (.nodeOutOfRange goal n))
      else match agents fin n (index + 1) rest todo with
        | .error e => .error e
        | .ok found => .ok ((line, ⟨initial, goal⟩) :: found)

end Reader

/-- The agent whose line is at fault when two agents clash: the later one. -/
def Defect.culprit? : Defect → Option Nat
  | sharedInitial _ _ second => some second
  | sharedGoal _ _ second => some second
  | _ => none

/-- The problem of the agents `found` with their lines; a clash is reported at the later agent. -/
def Problem.ofRead (g : Graph) (found : List (Nat × Agent)) : Except ReadError Problem :=
  match Problem.ofAgents g (found.map Prod.snd) with
  | .ok p => .ok p
  | .error d =>
    .error (.defect ((d.culprit?.bind fun a => (found.map Prod.fst)[a]?).getD 0) d)

def Problem.read [Memory] (file : Source) : Except ReadError Problem := do
  let fin := file.length + 1
  let (line, n, rest) ← Reader.one fin .nodeCount (records 1 file)
  let g ← (Graph.ofSize? n).mapError (.defect line)
  let (_, edgeCount, rest) ← Reader.one fin .edgeCount rest
  let (g, rest) ← Reader.edges fin 0 g rest edgeCount
  let (_, agentCount, rest) ← Reader.one fin .agentCount rest
  let found ← Reader.agents fin n 0 rest agentCount
  Problem.ofRead g found

end AgentPaths
