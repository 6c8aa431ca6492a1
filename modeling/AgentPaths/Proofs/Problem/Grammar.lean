import AgentPaths.Problem.Reader
import AgentPaths.Proofs.Graph.Table
import AgentPaths.Proofs.Problem.Validation
import AgentPaths.Proofs.Text.Reading

/-!
The grammar of problem files. A text is read if and only if its data lines begin with rows of
numbers in the order of the file format, and these rows determine the problem.
-/
namespace AgentPaths

open Text

section Begins

variable {α β γ : Type} {R : α → β → Prop} {xs rest : List α} {ys : List β}

/-- `xs` begins with items that `R` relates to `ys` one by one; `rest` is what follows them. -/
def Begins (R : α → β → Prop) (xs : List α) (ys : List β) (rest : List α) : Prop :=
  ∃ front, xs = front ++ rest ∧ List.Forall₂ R front ys

@[simp] theorem begins_nil : Begins R xs [] rest ↔ xs = rest := by
  simp [Begins]

@[simp] theorem begins_cons {y : β} : Begins R xs (y :: ys) rest ↔
    ∃ x mid, xs = x :: mid ∧ R x y ∧ Begins R mid ys rest := by
  constructor
  · rintro ⟨front, rfl, hfront⟩
    obtain ⟨x, later, hx, hlater, rfl⟩ := List.forall₂_cons_right_iff.mp hfront
    exact ⟨x, later ++ rest, rfl, hx, later, rfl, hlater⟩
  · rintro ⟨x, _, rfl, hx, front, rfl, hfront⟩
    exact ⟨x :: front, rfl, .cons hx hfront⟩

theorem begins_append (ys zs : List β) : Begins R xs (ys ++ zs) rest ↔
    ∃ mid, Begins R xs ys mid ∧ Begins R mid zs rest := by
  induction ys generalizing xs with
  | nil => simp
  | cons y ys ih =>
    simp only [List.cons_append, begins_cons, ih]
    constructor
    · rintro ⟨x, mid, rfl, hx, later, hys, hzs⟩
      exact ⟨later, ⟨x, mid, rfl, hx, hys⟩, hzs⟩
    · rintro ⟨later, ⟨x, mid, rfl, hx, hys⟩, hzs⟩
      exact ⟨x, mid, rfl, hx, later, hys, hzs⟩

/-- What a list begins with can be told from the items of a list that represents it. -/
theorem begins_iff_of_forall₂ {S : α → γ → Prop} {T : γ → β → Prop} {zs : List γ}
    (hitems : List.Forall₂ S xs zs) (hST : ∀ x z y, S x z → (R x y ↔ T z y)) :
    (∃ rest, Begins R xs ys rest) ↔ ∃ rest, Begins T zs ys rest := by
  induction hitems generalizing ys with
  | nil => cases ys <;> simp
  | @cons x z xs zs hxz hitems ih =>
    cases ys with
    | nil => simp
    | cons y ys =>
      simp only [begins_cons, List.cons.injEq]
      constructor
      · rintro ⟨rest, _, _, ⟨rfl, rfl⟩, hx, hrest⟩
        obtain ⟨rest', hrest'⟩ := ih.mp ⟨rest, hrest⟩
        exact ⟨rest', z, zs, ⟨rfl, rfl⟩, (hST x z y hxz).mp hx, hrest'⟩
      · rintro ⟨rest, _, _, ⟨rfl, rfl⟩, hz, hrest⟩
        obtain ⟨rest', hrest'⟩ := ih.mpr ⟨rest, hrest⟩
        exact ⟨rest', x, xs, ⟨rfl, rfl⟩, (hST x z y hxz).mpr hz, hrest'⟩

end Begins

/-- The lines of a text that hold data, in order, each without the blanks at its ends. -/
def dataLines (text : List Char) : List (List Char) :=
  ((text.splitOn '\n').map trim).filter holdsData

/-- The words of a line, which lie between its blanks, are numerals of `ns`. -/
def Row (line : List Char) (ns : List Nat) : Prop :=
  List.Forall₂ Numeral ((line.splitOnP isBlank).filter (!·.isEmpty)) ns

/-- The numbers of the edges, one row each, under their count. -/
def edgeRows (edges : List (Nat × Nat)) : List (List Nat) :=
  [edges.length] :: edges.map fun e => [e.1, e.2]

def agentRows (agents : List Agent) : List (List Nat) :=
  [agents.length] :: agents.map fun a => [a.initial, a.goal]

/-- `lines` begin with the rows for `n` nodes, `edges` and `agents`, and these describe an instance.
What follows the rows is left open. -/
structure Listing [Memory] (lines : List (List Char)) (n : Nat) (edges : List (Nat × Nat))
    (agents : List Agent) : Prop where
  fits : Fits n
  begins : ∃ rest, Begins Row lines ([n] :: edgeRows edges ++ agentRows agents) rest
  inside : ∀ e ∈ edges, e.1 < n ∧ e.2 < n
  admissible : Admissible n agents

def Record.Holds (r : Record) (content : List Char) : Prop := ∃ line, r = .data line content

/-- A record lists numbers as a line of data does. -/
def Record.Lists (r : Record) (ns : List Nat) : Prop :=
  ∃ line content, r = .data line content ∧ numbers? content = some ns

theorem Record.Holds.lists_iff {r : Record} {content : List Char} (h : r.Holds content)
    (ns : List Nat) : r.Lists ns ↔ Row content ns := by
  obtain ⟨line, rfl⟩ := h
  rw [Row, ← numbers?_eq_some]
  constructor
  · rintro ⟨_, _, he, hns⟩
    cases he
    exact hns
  · exact fun hns => ⟨line, content, rfl, hns⟩

theorem records_map_some (line : Nat) (ls : List (List Char)) :
    List.Forall₂ Record.Holds (records line (ls.map some)) ((ls.map trim).filter holdsData) := by
  induction ls generalizing line with
  | nil => exact .nil
  | cons l ls ih =>
    rw [List.map_cons, List.map_cons, records, List.filter_cons]
    split
    · exact .cons ⟨line, rfl⟩ (ih (line + 1))
    · exact ih (line + 1)

theorem trim_append_lineFeed (l : List Char) (c : Char) (hc : (c == '\n') = true) :
    trim (l ++ [c]) = trim l := by
  rw [beq_iff_eq.mp hc, trim_concat (by decide)]

/-- It makes no difference that the lines of a source keep their line feeds. -/
theorem dataLines_eq (text : List Char) :
    dataLines text = ((textLines text).map trim).filter holdsData :=
  (filter_map_pieces trim_append_lineFeed rfl text).symm

/-- The records of a text are its data lines. -/
theorem records_ofText (line : Nat) (text : List Char) :
    List.Forall₂ Record.Holds (records line (.ofText text)) (dataLines text) := by
  rw [dataLines_eq]
  exact records_map_some line (textLines text)

namespace Reader

variable {fin n index todo line : Nat} {item : Item} {content : List Char} {rs rest : List Record}
  {ns : List Nat}

theorem next_eq_ok (fin : Nat) (item : Item) :
    next fin item rs = .ok (line, content, rest) ↔ rs = .data line content :: rest := by
  constructor
  · intro h
    unfold next at h
    split at h
    · cases h
    · cases h
    · cases h
      rfl
  · rintro rfl
    rfl

/-- A line is the next record if the records begin with it. -/
theorem begins_lists_singleton : Begins Record.Lists rs [ns] rest ↔
    ∃ line content, rs = .data line content :: rest ∧ numbers? content = some ns := by
  simp only [begins_cons, begins_nil]
  constructor
  · rintro ⟨_, _, rfl, ⟨line, content, rfl, hns⟩, rfl⟩
    exact ⟨line, content, rfl, hns⟩
  · rintro ⟨line, content, rfl, hns⟩
    exact ⟨_, _, rfl, ⟨line, content, rfl, hns⟩, rfl⟩

theorem one_eq_ok_iff : one fin item rs = .ok (line, n, rest) ↔
    ∃ content, rs = .data line content :: rest ∧ numbers? content = some [n] := by
  simp only [← next_eq_ok fin item]
  constructor
  · intro h
    unfold one at h
    split at h
    · cases h
    next hnext =>
      split at h
      next hns =>
        cases h
        exact ⟨_, hnext, hns⟩
      next => cases h
  · rintro ⟨content, hnext, hns⟩
    simp only [one, hnext, hns]

theorem two_eq_ok_iff {u v : Nat} : two fin item rs = .ok (line, (u, v), rest) ↔
    ∃ content, rs = .data line content :: rest ∧ numbers? content = some [u, v] := by
  simp only [← next_eq_ok fin item]
  constructor
  · intro h
    unfold two at h
    split at h
    · cases h
    next hnext =>
      split at h
      next hns =>
        cases h
        exact ⟨_, hnext, hns⟩
      next => cases h
  · rintro ⟨content, hnext, hns⟩
    simp only [two, hnext, hns]

theorem one_eq_ok (fin : Nat) (item : Item) :
    (∃ line, one fin item rs = .ok (line, n, rest)) ↔ Begins Record.Lists rs [[n]] rest := by
  simp only [one_eq_ok_iff, begins_lists_singleton]

theorem two_eq_ok {u v : Nat} (fin : Nat) (item : Item) :
    (∃ line, two fin item rs = .ok (line, (u, v), rest)) ↔
      Begins Record.Lists rs [[u, v]] rest := by
  simp only [two_eq_ok_iff, begins_lists_singleton]

theorem edges_eq_ok {g h : Graph} : edges fin index g rs todo = .ok (h, rest) ↔
    ∃ es : List (Nat × Nat), es.length = todo ∧ (∀ e ∈ es, e.1 < g.size ∧ e.2 < g.size) ∧
      h = g.joinAll es ∧ Begins Record.Lists rs (es.map fun e => [e.1, e.2]) rest := by
  induction todo generalizing index g rs with
  | zero =>
    constructor
    · intro hread
      cases hread
      exact ⟨[], rfl, by simp, rfl, begins_nil.mpr rfl⟩
    · rintro ⟨es, hlen, -, rfl, hrows⟩
      obtain rfl := List.length_eq_zero_iff.mp hlen
      obtain rfl := begins_nil.mp hrows
      rfl
  | succ todo ih =>
    constructor
    · intro hread
      unfold edges at hread
      split at hread
      · cases hread
      next line u v mid htwo =>
        split at hread
        · cases hread
        next hadd =>
          obtain ⟨hu, hv, rfl⟩ := Graph.addEdge_eq_ok.mp hadd
          obtain ⟨es, hlen, hes, rfl, hrest⟩ := ih.mp hread
          exact ⟨(u, v) :: es, by rw [List.length_cons, hlen],
            List.forall_mem_cons.mpr ⟨⟨hu, hv⟩, hes⟩, rfl,
            (begins_append _ _).mpr ⟨mid, (two_eq_ok _ _).mp ⟨line, htwo⟩, hrest⟩⟩
    · rintro ⟨es, hlen, hes, rfl, hrows⟩
      cases es with
      | nil => cases hlen
      | cons e es =>
        obtain ⟨⟨hu, hv⟩, hes⟩ := List.forall_mem_cons.mp hes
        obtain ⟨mid, hfirst, hrest⟩ := (begins_append [[e.1, e.2]] _).mp hrows
        obtain ⟨line, htwo⟩ := (two_eq_ok fin (.edge index)).mpr hfirst
        have hadd := Graph.addEdge_eq_ok.mpr ⟨hu, hv, rfl⟩
        simp only [edges, htwo, hadd]
        exact ih.mpr ⟨es, Nat.succ.inj hlen, hes, rfl, hrest⟩

theorem agents_eq_ok {as : List Agent} (fin index : Nat) :
    (∃ found, agents fin n index rs todo = .ok found ∧ found.map Prod.snd = as) ↔
      as.length = todo ∧ (∀ a ∈ as, a.initial < n ∧ a.goal < n) ∧
        ∃ rest, Begins Record.Lists rs (as.map fun a => [a.initial, a.goal]) rest := by
  induction todo generalizing index rs as with
  | zero =>
    constructor
    · rintro ⟨found, hread, rfl⟩
      cases hread
      exact ⟨rfl, by simp, rs, begins_nil.mpr rfl⟩
    · rintro ⟨hlen, -, -⟩
      exact ⟨[], rfl, (List.length_eq_zero_iff.mp hlen).symm⟩
  | succ todo ih =>
    constructor
    · rintro ⟨found, hread, rfl⟩
      unfold agents at hread
      split at hread
      · cases hread
      next line initial goal mid htwo =>
        split at hread
        · cases hread
        next hinitial =>
          split at hread
          · cases hread
          next hgoal =>
            split at hread
            · cases hread
            next found hfound =>
              cases hread
              obtain ⟨hlen, hinside, rest, hrest⟩ := (ih _).mp ⟨found, hfound, rfl⟩
              exact ⟨by rw [List.map_cons, List.length_cons, hlen],
                List.forall_mem_cons.mpr ⟨⟨Nat.not_le.mp hinitial, Nat.not_le.mp hgoal⟩, hinside⟩,
                rest, (begins_append _ _).mpr ⟨mid, (two_eq_ok _ _).mp ⟨line, htwo⟩, hrest⟩⟩
    · rintro ⟨hlen, hinside, rest, hrows⟩
      cases as with
      | nil => cases hlen
      | cons a as =>
        obtain ⟨⟨hinitial, hgoal⟩, hinside⟩ := List.forall_mem_cons.mp hinside
        obtain ⟨mid, hfirst, hrest⟩ := (begins_append [[a.initial, a.goal]] _).mp hrows
        obtain ⟨line, htwo⟩ := (two_eq_ok fin (.agent index)).mpr hfirst
        obtain ⟨found, hfound, rfl⟩ := (ih (index + 1)).mpr
          ⟨Nat.succ.inj hlen, hinside, rest, hrest⟩
        refine ⟨(line, a) :: found, ?_, rfl⟩
        simp only [agents, htwo, if_neg (Nat.not_le.mpr hinitial), if_neg (Nat.not_le.mpr hgoal),
          hfound]

end Reader

theorem bind_eq_ok {ε α β : Type} {x : Except ε α} {f : α → Except ε β} {b : β} :
    x >>= f = .ok b ↔ ∃ a, x = .ok a ∧ f a = .ok b := by
  cases x <;> simp [bind, Except.bind]

theorem mapError_eq_ok {ε ε' α : Type} {x : Except ε α} {f : ε → ε'} {a : α} :
    x.mapError f = .ok a ↔ x = .ok a := by
  cases x <;> simp [Except.mapError]

namespace Problem

theorem ofRead_eq_ok {g : Graph} {found : List (Nat × Agent)} {p : Problem} :
    ofRead g found = .ok p ↔ p.graph = g ∧ p.agents = found.map Prod.snd := by
  rw [← ofAgents_eq_ok]
  unfold ofRead
  split <;> simp_all

/-- What a file has to hold to be read as `p`. -/
theorem read_eq_ok [Memory] {file : Source} {p : Problem} : Problem.read file = .ok p ↔
    ∃ es, Fits p.graph.size ∧ (∀ e ∈ es, e.1 < p.graph.size ∧ e.2 < p.graph.size) ∧
      p.graph = (Graph.empty p.graph.size).joinAll es ∧
      ∃ rest, Begins Record.Lists (records 1 file)
        ([p.graph.size] :: edgeRows es ++ agentRows p.agents) rest := by
  simp only [Problem.read, bind_eq_ok, Prod.exists, mapError_eq_ok, Graph.ofSize?_eq_ok,
    Reader.edges_eq_ok, ofRead_eq_ok]
  constructor
  · -- what is left after each part is what the next part begins with
    intro hread
    obtain ⟨line, n, rest₁, hn, _, ⟨hfits, rfl⟩, line₂, _, rest₂, hedgeCount, _, rest₃,
      ⟨es, rfl, hes, rfl, hedges⟩, line₃, _, rest₄, hagentCount, found, hfound, hgraph, hagents⟩ :=
      hread
    obtain ⟨rfl, -, rest, hrows⟩ := (Reader.agents_eq_ok _ _).mp ⟨found, hfound, hagents.symm⟩
    have hsize : p.graph.size = n := by rw [hgraph, Graph.size_joinAll, Graph.size_empty]
    subst hsize
    refine ⟨es, hfits, hes, hgraph, rest, (begins_append _ _).mpr ⟨rest₃, ?_, ?_⟩⟩
    · exact (begins_append [_] _).mpr ⟨rest₁, (Reader.one_eq_ok _ _).mp ⟨line, hn⟩,
        (begins_append [_] _).mpr ⟨rest₂, (Reader.one_eq_ok _ _).mp ⟨line₂, hedgeCount⟩, hedges⟩⟩
    · exact (begins_append [_] _).mpr
        ⟨rest₄, (Reader.one_eq_ok _ _).mp ⟨line₃, hagentCount⟩, hrows⟩
  · intro hlisting
    obtain ⟨es, hfits, hes, hgraph, rest, hrows⟩ := hlisting
    obtain ⟨rest₃, hfront, hback⟩ := (begins_append _ _).mp hrows
    obtain ⟨rest₁, hn, hfront⟩ := (begins_append [_] _).mp hfront
    obtain ⟨rest₂, hedgeCount, hedges⟩ := (begins_append [_] _).mp hfront
    obtain ⟨rest₄, hagentCount, hagents⟩ := (begins_append [_] _).mp hback
    obtain ⟨line, hn⟩ := (Reader.one_eq_ok (file.length + 1) .nodeCount).mpr hn
    obtain ⟨line₂, hedgeCount⟩ := (Reader.one_eq_ok (file.length + 1) .edgeCount).mpr hedgeCount
    obtain ⟨line₃, hagentCount⟩ := (Reader.one_eq_ok (file.length + 1) .agentCount).mpr hagentCount
    obtain ⟨found, hfound, hagents⟩ := (Reader.agents_eq_ok (file.length + 1) 0).mpr
      ⟨rfl, p.admissible.inside, rest, hagents⟩
    exact ⟨line, _, rest₁, hn, _, ⟨hfits, rfl⟩, line₂, _, rest₂, hedgeCount, _, rest₃,
      ⟨es, rfl, hes, rfl, hedges⟩, line₃, _, rest₄, hagentCount, found, hfound, hgraph,
      hagents.symm⟩

/-- A text is read as a problem if and only if its data lines list the problem. -/
theorem read_ofUTF8_eq_ok [Memory] {text : List Char} {p : Problem} :
    Problem.read (.ofUTF8 text) = .ok p ↔ ∃ es, Listing (dataLines text) p.graph.size es p.agents ∧
      p.graph = (Graph.empty p.graph.size).joinAll es := by
  have hlines (rows : List (List Nat)) :
      (∃ rest, Begins Record.Lists (records 1 (.ofText text)) rows rest) ↔
        ∃ rest, Begins Row (dataLines text) rows rest :=
    begins_iff_of_forall₂ (records_ofText 1 text) fun _ _ ns h => h.lists_iff ns
  rw [ofUTF8_eq_ofText, read_eq_ok]
  constructor
  · intro hread
    obtain ⟨es, hfits, hes, hgraph, hrows⟩ := hread
    exact ⟨es, ⟨hfits, (hlines _).mp hrows, hes, p.admissible⟩, hgraph⟩
  · intro hlisting
    obtain ⟨es, hes, hgraph⟩ := hlisting
    exact ⟨es, hes.fits, hes.inside, hgraph, (hlines _).mpr hes.begins⟩

end Problem

section Listing

variable {text : List Char} {n : Nat} {edges : List (Nat × Nat)} {agents : List Agent}

/-- The problem with the nodes, edges and agents of a listing. -/
def Listing.problem [Memory] (h : Listing (dataLines text) n edges agents) : Problem :=
  ⟨(Graph.empty n).joinAll edges, agents, by
    rw [Graph.size_joinAll, Graph.size_empty]
    exact h.admissible⟩

theorem Listing.read [Memory] (h : Listing (dataLines text) n edges agents) :
    Problem.read (.ofUTF8 text) = .ok h.problem := by
  have hsize : h.problem.graph.size = n := (Graph.size_joinAll _ _).trans (Graph.size_empty n)
  exact Problem.read_ofUTF8_eq_ok.mpr ⟨edges, hsize.symm ▸ h, hsize.symm ▸ rfl⟩

theorem Listing.hasEdge_problem [Memory] (h : Listing (dataLines text) n edges agents) (u v : Nat) :
    h.problem.graph.hasEdge u v = true ↔ (u, v) ∈ edges ∨ (v, u) ∈ edges := by
  rw [Listing.problem, Graph.hasEdge_joinAll h.inside, Graph.hasEdge_empty]
  simp

end Listing

/-- A text can be read if and only if its data lines begin with a listing. What is read then has the
listed nodes, edges and agents, and whatever follows the listing is irrelevant. -/
theorem Problem.read_iff_listing [Memory] (text : List Char) :
    ((∃ p, Problem.read (.ofUTF8 text) = .ok p) ↔
      ∃ n edges agents, Listing (dataLines text) n edges agents) ∧
    ∀ n edges agents, Listing (dataLines text) n edges agents →
      (∀ p, Problem.read (.ofUTF8 text) = .ok p → p.graph.size = n ∧ p.agents = agents ∧
        ∀ u v, p.graph.hasEdge u v = true ↔ (u, v) ∈ edges ∨ (v, u) ∈ edges) ∧
      ∀ other, Listing (dataLines other) n edges agents →
        Problem.read (.ofUTF8 other) = Problem.read (.ofUTF8 text) := by
  refine ⟨⟨?_, ?_⟩, fun n edges agents h => ⟨fun p hread => ?_, fun other h' => ?_⟩⟩
  · intro hread
    obtain ⟨p, hread⟩ := hread
    obtain ⟨es, hes, -⟩ := Problem.read_ofUTF8_eq_ok.mp hread
    exact ⟨p.graph.size, es, p.agents, hes⟩
  · intro hlisting
    obtain ⟨n, edges, agents, h⟩ := hlisting
    exact ⟨h.problem, h.read⟩
  · obtain rfl : h.problem = p := Except.ok.inj (h.read.symm.trans hread)
    exact ⟨(Graph.size_joinAll _ _).trans (Graph.size_empty n), rfl, h.hasEdge_problem⟩
  · exact h'.read.trans h.read.symm

/-- A text with comments and blank lines, a carriage return, a plus, a zero in front, one edge given
from both of its ends, and a line behind the last agent. -/
def sampleText : List Char :=
  "# nodes\r\n 3\r\n\n+2\n0 1\n  # 5 6\n\t01   00 \n1\n2 1\nand so on".toList

theorem dataLines_sampleText : dataLines sampleText =
    ["3".toList, "+2".toList, "0 1".toList, "01   00".toList, "1".toList, "2 1".toList,
      "and so on".toList] := by
  decide +kernel

section

attribute [local instance] Memory.ample

theorem listing_sampleText : Listing (dataLines sampleText) 3 [(0, 1), (1, 0)] [⟨2, 1⟩] where
  fits := by decide
  begins := by
    rw [dataLines_sampleText]
    refine ⟨["and so on".toList], ["3".toList, "+2".toList, "0 1".toList, "01   00".toList,
      "1".toList, "2 1".toList], rfl, ?_⟩
    simp only [edgeRows, agentRows, List.map_cons, List.map_nil, List.cons_append, List.nil_append,
      List.forall₂_cons, List.Forall₂.nil, Row, ← numbers?_eq_some]
    decide
  inside := by decide
  admissible := ⟨by decide, by decide, by decide⟩

theorem Problem.read_iff_listing_sampleText :
    (∃ p, Problem.read (.ofUTF8 sampleText) = .ok p) ∧
      ∀ p, Problem.read (.ofUTF8 sampleText) = .ok p → p.graph.size = 3 ∧ p.agents = [⟨2, 1⟩] ∧
        ∀ u v, p.graph.hasEdge u v = true ↔
          (u, v) ∈ [(0, 1), (1, 0)] ∨ (v, u) ∈ [(0, 1), (1, 0)] := by
  have hsample := Problem.read_iff_listing sampleText
  exact ⟨hsample.1.mpr ⟨3, _, _, listing_sampleText⟩, (hsample.2 3 _ _ listing_sampleText).1⟩

end

end AgentPaths
