import AgentPaths.Proofs.Problem.Clash
import AgentPaths.Proofs.Problem.Items

/-!
Faults of problem files. Read in order, the data lines of a file that is refused come to a first
fault: a line that does not hold what its place demands, a number that is out of range, or the end
of the file. The error names this fault with its line. Clashes between agents count only in a file
without any other fault, and are reported at the line of the later agent.
-/
namespace AgentPaths

open Text

/-- The lines of a text: those that end with a line feed, and what stands behind the last one. -/
def lineCount (text : List Char) : Nat :=
  text.count '\n' + if text.getLast?.any (· != '\n') then 1 else 0

/-- The data lines of a text, numbered as they stand in it, from 1 on. -/
def textRecords (text : List Char) : List Record :=
  ((((text.splitOn '\n').map trim).zipIdx 1).filter (holdsData ·.1)).map fun (content, line) =>
    .data line content

/-- A record holds the numbers of a row. -/
def Record.HasRow (r : Record) (ns : List Nat) : Prop :=
  ∃ line content, r = .data line content ∧ Row content ns

/-- After `rows`, which are free of faults, a file for `n` nodes goes on with an item, a row of
`width` numbers. -/
inductive Awaits [Memory] (n : Nat) : List (List Nat) → Item → Nat → Prop
  -- `n` is open as long as it has not been read
  | nodeCount : Awaits n [] .nodeCount 1
  | edgeCount : Fits n → Awaits n [[n]] .edgeCount 1
  | edge {edges : List (Nat × Nat)} {count : Nat} : Fits n → edges.length < count →
      (∀ e ∈ edges, e.1 < n ∧ e.2 < n) →
      Awaits n ([n] :: [count] :: edges.map fun e => [e.1, e.2]) (.edge edges.length) 2
  | agentCount {edges : List (Nat × Nat)} : Fits n → (∀ e ∈ edges, e.1 < n ∧ e.2 < n) →
      Awaits n ([n] :: edgeRows edges) .agentCount 1
  | agent {edges : List (Nat × Nat)} {agents : List Agent} {count : Nat} : Fits n →
      (∀ e ∈ edges, e.1 < n ∧ e.2 < n) → agents.length < count →
      (∀ a ∈ agents, a.initial < n ∧ a.goal < n) →
      Awaits n ([n] :: edgeRows edges ++ [count] :: agents.map fun a => [a.initial, a.goal])
        (.agent agents.length) 2

/-- The first fault of a file with the records `rs` and with `fin - 1` lines, as the error that
reports it. -/
inductive FirstFault [Memory] (fin : Nat) (rs : List Record) : ReadError → Prop
  | item {n width : Nat} {rows : List (List Nat)} {item : Item} {rest : List Record}
      {e : ReadError} : Awaits n rows item width → Begins Record.HasRow rs rows rest →
      Fault fin n item width rest e → FirstFault fin rs e
  | clash {n second line : Nat} {edges : List (Nat × Nat)} {agents : List Agent} {d : Defect}
      {content : List Char} {rest : List Record} : Fits n → (∀ e ∈ edges, e.1 < n ∧ e.2 < n) →
      (∀ a ∈ agents, a.initial < n ∧ a.goal < n) →
      Begins Record.HasRow rs ([n] :: edgeRows edges ++ agentRows agents) rest →
      FirstClash agents second d →
      -- the rows before those of the agents are one for the nodes, one for each count and the edges
      rs[edges.length + 3 + second]? = some (.data line content) →
      FirstFault fin rs (.defect line d)

theorem Record.lists_eq_hasRow : Record.Lists = Record.HasRow := by
  funext r ns
  simp only [Record.Lists, Record.HasRow, numbers?_eq_some, Row]

theorem Begins.getElem?_add {α β : Type} {R : α → β → Prop} {xs rest : List α} {ys : List β}
    (h : Begins R xs ys rest) (i : Nat) : xs[ys.length + i]? = rest[i]? := by
  obtain ⟨front, rfl, hfront⟩ := h
  rw [← hfront.length_eq, List.getElem?_append_right (Nat.le_add_right _ _),
    Nat.add_sub_cancel_left]

/-- A clash is reported with the line of the later agent. -/
theorem Problem.ofRead_eq_error {g : Graph} {found : List (Nat × Agent)} {e : ReadError}
    (hinside : ∀ a ∈ found.map Prod.snd, a.initial < g.size ∧ a.goal < g.size) :
    Problem.ofRead g found = .error e ↔ ∃ second d f, FirstClash (found.map Prod.snd) second d ∧
      found[second]? = some f ∧ e = .defect f.1 d := by
  have hofRead : Problem.ofRead g found = .error e ↔ ∃ d, firstDefect? g.size []
      (found.map Prod.snd) = some d ∧
      e = .defect ((d.culprit?.bind fun a => (found.map Prod.fst)[a]?).getD 0) d := by
    simp only [Problem.ofRead, ← Problem.ofAgents_eq_error]
    cases Problem.ofAgents g (found.map Prod.snd) <;> simp [eq_comm]
  simp only [hofRead, firstDefect?_eq_some_iff hinside]
  constructor
  · intro h
    obtain ⟨d, ⟨second, hclash⟩, rfl⟩ := h
    have hlt := hclash.lt_length
    rw [List.length_map] at hlt
    refine ⟨second, d, found[second], hclash, List.getElem?_eq_getElem hlt, ?_⟩
    simp [hclash.culprit, hlt]
  · intro h
    obtain ⟨second, d, f, hclash, hf, rfl⟩ := h
    refine ⟨d, ⟨second, hclash⟩, ?_⟩
    simp [hclash.culprit, hf]

namespace Reader

/-- What is read after the edges. -/
def afterEdges (fin n : Nat) (g : Graph) (rs : List Record) : Except ReadError Problem := do
  let (_, count, rest) ← one fin .agentCount rs
  let found ← agents fin n 0 rest count
  Problem.ofRead g found

/-- What is read after the number of nodes. -/
def afterNodes (fin n : Nat) (g : Graph) (rs : List Record) : Except ReadError Problem := do
  let (_, count, rest) ← one fin .edgeCount rs
  let (g, rest) ← edges fin 0 g rest count
  afterEdges fin n g rest

theorem read_eq_bind [Memory] (file : Source) : Problem.read file = (do
    let (line, n, rest) ← one (file.length + 1) .nodeCount (records 1 file)
    let g ← (Graph.ofSize? n).mapError (.defect line)
    afterNodes (file.length + 1) n g rest) := rfl

variable {fin n : Nat} {g : Graph} {item : Item} {rs : List Record} {e : ReadError}

theorem afterEdges_eq_error [Memory] (hsize : g.size = n) : afterEdges fin n g rs = .error e ↔
    Fault fin n .agentCount 1 rs e ∨
    (∃ count, ∃ as : List Agent, ∃ rest, as.length < count ∧
      (∀ a ∈ as, a.initial < n ∧ a.goal < n) ∧
      Begins Record.Lists rs ([count] :: as.map fun a => [a.initial, a.goal]) rest ∧
      Fault fin n (.agent as.length) 2 rest e) ∨
    ∃ as : List Agent, ∃ rest second d line content,
      (∀ a ∈ as, a.initial < n ∧ a.goal < n) ∧
      Begins Record.Lists rs (agentRows as) rest ∧ FirstClash as second d ∧
      rs[1 + second]? = some (.data line content) ∧ e = .defect line d := by
  subst hsize
  simp only [afterEdges, bind_eq_error, Prod.exists, exists_one_eq_ok_and, agents_eq_error,
    one_eq_error_iff_fault g.size .agentCount (by simp)]
  constructor
  · intro h
    rcases h with hfault | ⟨count, mid, hcount, ⟨as, rest, hlt, has, hrows, hfault⟩ |
      ⟨found, hfound, h⟩⟩
    · exact Or.inl hfault
    · exact Or.inr (Or.inl ⟨count, as, rest, hlt, has, hcount.append hrows, hfault⟩)
    · obtain ⟨hlen, has, rest, hrows⟩ := (agents_eq_ok fin 0).mp ⟨found, hfound, rfl⟩
      obtain ⟨second, d, f, hclash, hf, rfl⟩ := (Problem.ofRead_eq_error has).mp h
      obtain ⟨content, hdata⟩ := exists_data_of_agents hfound hf
      rw [← hlen] at hcount
      exact Or.inr (Or.inr ⟨_, rest, second, d, f.1, content, has, hcount.append hrows, hclash,
        (hcount.getElem?_add second).trans hdata, rfl⟩)
  · intro h
    rcases h with hfault | ⟨count, as, rest, hlt, has, hrows, hfault⟩ |
      ⟨as, rest, second, d, line, content, has, hrows, hclash, hdata, rfl⟩
    · exact Or.inl hfault
    · obtain ⟨mid, hcount, hrows⟩ := (begins_append [_] _).mp hrows
      exact Or.inr ⟨count, mid, hcount, Or.inl ⟨as, rest, hlt, has, hrows, hfault⟩⟩
    · obtain ⟨mid, hcount, hrows⟩ := (begins_append [_] _).mp hrows
      obtain ⟨found, hfound, rfl⟩ := (agents_eq_ok fin 0).mpr ⟨rfl, has, rest, hrows⟩
      have hlt := hclash.lt_length
      rw [List.length_map] at hlt
      have hf := List.getElem?_eq_getElem hlt
      obtain ⟨content', hdata'⟩ := exists_data_of_agents hfound hf
      -- the line of the later agent is the one that was read for it
      have hsame := (hcount.getElem?_add second).symm.trans hdata
      rw [hdata'] at hsame
      cases hsame
      exact Or.inr ⟨_, mid, hcount, Or.inr ⟨found, hfound,
        (Problem.ofRead_eq_error has).mpr ⟨second, d, _, hclash, hf, rfl⟩⟩⟩

theorem afterNodes_eq_error [Memory] (hsize : g.size = n) : afterNodes fin n g rs = .error e ↔
    Fault fin n .edgeCount 1 rs e ∨
    (∃ count, ∃ es : List (Nat × Nat), ∃ rest, es.length < count ∧
      (∀ x ∈ es, x.1 < n ∧ x.2 < n) ∧
      Begins Record.Lists rs ([count] :: es.map fun x => [x.1, x.2]) rest ∧
      Fault fin n (.edge es.length) 2 rest e) ∨
    ∃ es : List (Nat × Nat), ∃ rest, (∀ x ∈ es, x.1 < n ∧ x.2 < n) ∧
      Begins Record.Lists rs (edgeRows es) rest ∧
      afterEdges fin n (g.joinAll es) rest = .error e := by
  subst hsize
  simp only [afterNodes, bind_eq_error, Prod.exists, exists_one_eq_ok_and, edges_eq_error,
    edges_eq_ok, one_eq_error_iff_fault g.size .edgeCount (by simp)]
  constructor
  · intro h
    rcases h with hfault | ⟨count, mid, hcount, ⟨es, rest, hlt, hes, hrows, hfault⟩ |
      ⟨_, rest, ⟨es, rfl, hes, rfl, hrows⟩, h⟩⟩
    · exact Or.inl hfault
    · exact Or.inr (Or.inl ⟨count, es, rest, hlt, hes, hcount.append hrows, hfault⟩)
    · exact Or.inr (Or.inr ⟨es, rest, hes, hcount.append hrows, h⟩)
  · intro h
    rcases h with hfault | ⟨count, es, rest, hlt, hes, hrows, hfault⟩ | ⟨es, rest, hes, hrows, h⟩
    · exact Or.inl hfault
    · obtain ⟨mid, hcount, hrows⟩ := (begins_append [_] _).mp hrows
      exact Or.inr ⟨count, mid, hcount, Or.inl ⟨es, rest, hlt, hes, hrows, hfault⟩⟩
    · obtain ⟨mid, hcount, hrows⟩ := (begins_append [_] _).mp hrows
      exact Or.inr ⟨_, mid, hcount, Or.inr ⟨_, rest, ⟨es, rfl, hes, rfl, hrows⟩, h⟩⟩

theorem read_eq_error_iff [Memory] {file : Source} : Problem.read file = .error e ↔
    (∃ n, Fault (file.length + 1) n .nodeCount 1 (records 1 file) e) ∨
    ∃ n rest, Fits n ∧ Begins Record.Lists (records 1 file) [[n]] rest ∧
      afterNodes (file.length + 1) n (.empty n) rest = .error e := by
  rw [read_eq_bind]
  simp only [bind_eq_error, Prod.exists, one_eq_error, mapError_eq_error, mapError_eq_ok,
    Graph.ofSize?_eq_error, Graph.ofSize?_eq_ok]
  constructor
  · intro h
    rcases h with hlacks | ⟨line, n, rest, hn, ⟨_, ⟨hfits, rfl⟩, rfl⟩ | ⟨_, ⟨hfits, rfl⟩, h⟩⟩
    · exact Or.inl ⟨0, .lacks hlacks⟩
    · obtain ⟨content, hrs, hns⟩ := one_eq_ok_iff.mp hn
      rw [hrs]
      exact Or.inl ⟨0, .tooManyNodes (numbers?_eq_some.mp hns) hfits⟩
    · exact Or.inr ⟨n, rest, hfits, (one_eq_ok _ _).mp ⟨line, hn⟩, h⟩
  · intro h
    rcases h with ⟨_, hfault⟩ | ⟨n, rest, hfits, hn, h⟩
    · generalize records 1 file = rs at hfault
      cases hfault with
      | lacks hlacks => exact Or.inl hlacks
      | tooManyNodes hrow hfits =>
        exact Or.inr ⟨_, _, _, one_eq_ok_iff.mpr ⟨_, rfl, numbers?_eq_some.mpr hrow⟩,
          Or.inl ⟨_, ⟨hfits, rfl⟩, rfl⟩⟩
    · obtain ⟨line, hn⟩ := (one_eq_ok _ _).mpr hn
      exact Or.inr ⟨line, n, rest, hn, Or.inr ⟨_, ⟨hfits, rfl⟩, h⟩⟩

end Reader

open Reader

theorem getElem?_add_of_begins_edgeRows {R : Record → List Nat → Prop} {rs rest : List Record}
    {n : Nat} {es : List (Nat × Nat)} (h : Begins R rs ([n] :: edgeRows es) rest) (i : Nat) :
    rs[es.length + 3 + i]? = rest[1 + i]? := by
  have hlength : es.length + 3 + i = ([n] :: edgeRows es).length + (1 + i) := by
    simp only [edgeRows, List.length_cons, List.length_map]
    omega
  rw [hlength, h.getElem?_add]

/-- A file that is refused is refused for its first fault. -/
theorem Problem.read_eq_error [Memory] {file : Source} {e : ReadError} :
    Problem.read file = .error e ↔ FirstFault (file.length + 1) (records 1 file) e := by
  have hafterNodes (n : Nat) (rest : List Record) :=
    @afterNodes_eq_error (file.length + 1) n (Graph.empty n) rest e _ rfl
  have hafterEdges (n : Nat) (es : List (Nat × Nat)) (rest : List Record) :=
    @afterEdges_eq_error (file.length + 1) n ((Graph.empty n).joinAll es) rest e _
      (Graph.size_joinAll _ _)
  simp only [read_eq_error_iff, hafterNodes, hafterEdges, Record.lists_eq_hasRow]
  constructor
  · intro h
    -- the item at fault: number of nodes, of edges, an edge, number of agents, an agent; or a clash
    rcases h with ⟨n, hfault⟩ | ⟨n, mid, hfits, hn, hfault |
      ⟨count, es, rest, hlt, hes, hrows, hfault⟩ | ⟨es, mid', hes, hedges, hfault |
        ⟨count, as, rest, hlt, has, hrows, hfault⟩ |
        ⟨as, rest, second, d, line, content, has, hrows, hclash, hdata, rfl⟩⟩⟩
    · exact .item .nodeCount (begins_nil.mpr rfl) hfault
    · exact .item (.edgeCount hfits) hn hfault
    · exact .item (.edge hfits hlt hes) (hn.append hrows) hfault
    · exact .item (.agentCount hfits hes) (hn.append hedges) hfault
    · have hfront := hn.append hedges
      exact .item (.agent hfits hes hlt has) (hfront.append hrows) hfault
    · have hfront := hn.append hedges
      have hline := (getElem?_add_of_begins_edgeRows hfront second).trans hdata
      exact .clash hfits hes has (hfront.append hrows) hclash hline
  · intro h
    cases h with
    | @item n width rows item rest e hawaits hrows hfault =>
      cases hawaits with
      | nodeCount =>
        obtain rfl := begins_nil.mp hrows
        exact Or.inl ⟨n, hfault⟩
      | edgeCount hfits => exact Or.inr ⟨_, _, hfits, hrows, Or.inl hfault⟩
      | @edge es count hfits hlt hes =>
        obtain ⟨mid, hn, hrows⟩ := (begins_append [[n]] _).mp hrows
        exact Or.inr ⟨n, mid, hfits, hn, Or.inr (Or.inl ⟨count, es, rest, hlt, hes, hrows, hfault⟩)⟩
      | @agentCount es hfits hes =>
        obtain ⟨mid, hn, hedges⟩ := (begins_append [[n]] _).mp hrows
        exact Or.inr ⟨n, mid, hfits, hn, Or.inr (Or.inr ⟨es, rest, hes, hedges, Or.inl hfault⟩)⟩
      | @agent es as count hfits hes hlt has =>
        obtain ⟨mid', hfront, hrows⟩ := (begins_append _ _).mp hrows
        obtain ⟨mid, hn, hedges⟩ := (begins_append [[n]] _).mp hfront
        exact Or.inr ⟨n, mid, hfits, hn, Or.inr (Or.inr ⟨es, mid', hes, hedges,
          Or.inr (Or.inl ⟨count, as, rest, hlt, has, hrows, hfault⟩)⟩)⟩
    | @clash n second line es as d content rest hfits hes has hrows hclash hdata =>
      obtain ⟨mid', hfront, hrows⟩ := (begins_append _ _).mp hrows
      obtain ⟨mid, hn, hedges⟩ := (begins_append [[n]] _).mp hfront
      have hline := (getElem?_add_of_begins_edgeRows hfront second).symm.trans hdata
      exact Or.inr ⟨n, mid, hfits, hn, Or.inr (Or.inr ⟨es, mid', hes, hedges,
        Or.inr (Or.inr ⟨as, rest, second, d, line, content, has, hrows, hclash, hline, rfl⟩)⟩)⟩

theorem records_map_some_eq (line : Nat) (ls : List (List Char)) : records line (ls.map some) =
    (((ls.map trim).zipIdx line).filter (holdsData ·.1)).map fun (content, line) =>
      .data line content := by
  induction ls generalizing line with
  | nil => rfl
  | cons l ls ih =>
    rw [List.map_cons, List.map_cons, List.zipIdx_cons, records, List.filter_cons]
    split
    next => rw [List.map_cons, ih]
    next => exact ih (line + 1)

theorem records_ofText_eq (text : List Char) : records 1 (.ofText text) = textRecords text := by
  rw [Source.ofText, records_map_some_eq, textLines,
    filter_zipIdx_map_pieces trim_append_lineFeed rfl]
  rfl

theorem length_ofText (text : List Char) : (Source.ofText text).length = lineCount text := by
  rw [Source.ofText, List.length_map, textLines]
  induction text using cut_induction (· == '\n') with
  | whole s hs =>
    cases s with
    | nil => rfl
    | cons a r =>
      have hcount : (a :: r).count '\n' = 0 :=
        List.count_eq_zero.mpr fun hmem => absurd (hs _ hmem) (by decide)
      have hlast : (a :: r).getLast?.any (· != '\n') = true := by
        have hmem := List.getLast_mem (List.cons_ne_nil a r)
        rw [List.getLast?_eq_some_getLast (List.cons_ne_nil a r), Option.any_some, bne, hs _ hmem]
        rfl
      rw [pieces_of_none (by simp) hs, lineCount, hcount, if_pos hlast]
      rfl
  | cut l a r hl ha ih =>
    obtain rfl := beq_iff_eq.mp ha
    have hcount : (l ++ '\n' :: r).count '\n' = r.count '\n' + 1 := by
      have hfree : l.count '\n' = 0 :=
        List.count_eq_zero.mpr fun hmem => absurd (hl _ hmem) (by decide)
      rw [List.count_append, hfree, List.count_cons_self, Nat.zero_add]
    have hlast : (l ++ '\n' :: r).getLast?.any (· != '\n') = r.getLast?.any (· != '\n') := by
      rw [List.getLast?_append, List.getLast?_cons]
      cases r.getLast? <;> simp
    rw [pieces_append_cons hl ha, List.length_cons, ih, lineCount, lineCount, hcount, hlast,
      Nat.add_right_comm]

/-- Only a file with bytes that are no text has a first fault of this kind. -/
theorem FirstFault.undecodable_mem [Memory] {fin : Nat} {rs : List Record}
    (h : FirstFault fin rs .undecodable) : Record.undecodable ∈ rs := by
  cases h with
  | item _ hrows hfault =>
    obtain ⟨front, rfl, -⟩ := hrows
    cases hfault with
    | lacks hlacks =>
      cases hlacks
      exact List.mem_append_right _ List.mem_cons_self

/-- A text that is refused is refused for its first fault, at the line of this fault. -/
theorem Problem.read_eq_error_iff_firstFault [Memory] (text : List Char) :
    (∀ e, Problem.read (.ofUTF8 text) = .error e ↔
      FirstFault (lineCount text + 1) (textRecords text) e) ∧
    Problem.read (.ofUTF8 text) ≠ .error .undecodable := by
  have hiff (e : ReadError) : Problem.read (.ofUTF8 text) = .error e ↔
      FirstFault (lineCount text + 1) (textRecords text) e := by
    rw [ofUTF8_eq_ofText, Problem.read_eq_error, length_ofText, records_ofText_eq]
  refine ⟨hiff, fun h => ?_⟩
  have hmem := ((hiff _).mp h).undecodable_mem
  simp [textRecords] at hmem

section

attribute [local instance] Memory.ample

example : Problem.read (.ofUTF8 "4\n0\n3\n0 2\n1 2\n3 3\n".toList) =
    .error (.defect 5 (.sharedGoal 2 0 1)) := by
  decide +kernel

end

end AgentPaths
