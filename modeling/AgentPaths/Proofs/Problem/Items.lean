import AgentPaths.Proofs.Problem.Grammar

/-!
Items at fault. Where a file is refused, an item is missing, its line does not hold as many numbers
as it should, or a number is out of range: the parts of the reader refuse just these records.
-/
namespace AgentPaths

open Text

/-- The words of a line, which lie between its blanks. -/
def tokens (line : List Char) : List (List Char) :=
  (line.splitOnP isBlank).filter (!·.isEmpty)

/-- Records do not begin with a row of `width` numbers for an item. -/
inductive Lacks (fin : Nat) (item : Item) (width : Nat) : List Record → ReadError → Prop
  | endOfFile : Lacks fin item width [] (.endOfFile fin item)
  | undecodable {rest : List Record} : Lacks fin item width (.undecodable :: rest) .undecodable
  | malformed {line : Nat} {content : List Char} {rest : List Record} :
      ((tokens content).length ≠ width ∨ ∃ token ∈ tokens content, ∀ n, ¬Numeral token n) →
      Lacks fin item width (.data line content :: rest) (.malformed line item content)

/-- Where an item of a file for `n` nodes is awaited, a row of `width` numbers, records begin with a
fault; the error reports it. -/
inductive Fault [Memory] (fin n : Nat) : Item → Nat → List Record → ReadError → Prop
  | lacks {item : Item} {width : Nat} {rs : List Record} {e : ReadError} :
      Lacks fin item width rs e → Fault fin n item width rs e
  | tooManyNodes {count line : Nat} {content : List Char} {rest : List Record} :
      Row content [count] → ¬Fits count →
      Fault fin n .nodeCount 1 (.data line content :: rest) (.defect line (.tooManyNodes count))
  | nodeOutOfRange {item : Item} {line u v node : Nat} {content : List Char}
      {rest : List Record} : Row content [u, v] → [u, v].find? (n ≤ ·) = some node →
      Fault fin n item 2 (.data line content :: rest) (.defect line (.nodeOutOfRange node n))

theorem Begins.append {α β : Type} {R : α → β → Prop} {xs mid rest : List α} {ys zs : List β}
    (h : Begins R xs ys mid) (h' : Begins R mid zs rest) : Begins R xs (ys ++ zs) rest :=
  (begins_append ys zs).mpr ⟨mid, h, h'⟩

theorem exists_forall₂_iff {α β : Type} {R : α → β → Prop} {xs : List α} :
    (∃ ys, List.Forall₂ R xs ys) ↔ ∀ x ∈ xs, ∃ y, R x y := by
  induction xs with
  | nil => simp
  | cons x xs ih =>
    simp only [List.forall₂_cons_left_iff, List.forall_mem_cons, ← ih]
    constructor
    · intro h
      obtain ⟨_, y, ys, hy, hys, rfl⟩ := h
      exact ⟨⟨y, hy⟩, ys, hys⟩
    · intro h
      obtain ⟨⟨y, hy⟩, ys, hys⟩ := h
      exact ⟨_, y, ys, hy, hys, rfl⟩

/-- A line fails to hold a row if it has the wrong number of words or one of them is no numeral. -/
theorem forall_row_length_ne_iff {content : List Char} {width : Nat} :
    (∀ ns, Row content ns → ns.length ≠ width) ↔ (tokens content).length ≠ width ∨
      ∃ token ∈ tokens content, ∀ n, ¬Numeral token n := by
  constructor
  · intro h
    by_contra hcon
    push Not at hcon
    obtain ⟨hlen, hall⟩ := hcon
    obtain ⟨ns, hns⟩ := exists_forall₂_iff.mpr hall
    exact h ns hns (hns.length_eq ▸ hlen)
  · intro h ns hns hwidth
    rcases h with hlen | ⟨token, htoken, hnone⟩
    · exact hlen (hns.length_eq.trans hwidth)
    · obtain ⟨n, hn⟩ := exists_forall₂_iff.mp ⟨ns, hns⟩ token htoken
      exact hnone n hn

section Lacks

variable {fin width line : Nat} {item : Item} {content : List Char} {rest : List Record}
  {e : ReadError}

theorem lacks_nil : Lacks fin item width [] e ↔ e = .endOfFile fin item := by
  constructor
  · intro h
    cases h
    rfl
  · intro he
    rw [he]
    exact .endOfFile

theorem lacks_undecodable : Lacks fin item width (.undecodable :: rest) e ↔ e = .undecodable := by
  constructor
  · intro h
    cases h
    rfl
  · intro he
    rw [he]
    exact .undecodable

theorem lacks_data : Lacks fin item width (.data line content :: rest) e ↔
    (∀ ns, Row content ns → ns.length ≠ width) ∧ e = .malformed line item content := by
  rw [forall_row_length_ne_iff]
  constructor
  · intro h
    cases h with
    | malformed hmalformed => exact ⟨hmalformed, rfl⟩
  · intro h
    rw [h.2]
    exact .malformed h.1

end Lacks

theorem bind_eq_error {ε α β : Type} {x : Except ε α} {f : α → Except ε β} {e : ε} :
    x >>= f = .error e ↔ x = .error e ∨ ∃ a, x = .ok a ∧ f a = .error e := by
  cases x <;> simp [bind, Except.bind]

theorem mapError_eq_error {ε ε' α : Type} {x : Except ε α} {f : ε → ε'} {e : ε'} :
    x.mapError f = .error e ↔ ∃ e', x = .error e' ∧ f e' = e := by
  cases x <;> simp [Except.mapError]

namespace Reader

variable {fin n index todo line : Nat} {item : Item} {rs rest : List Record} {e : ReadError}

theorem one_eq_error : one fin item rs = .error e ↔ Lacks fin item 1 rs e := by
  match rs with
  | [] => rw [lacks_nil, one, next, Except.error.injEq, eq_comm]
  | .undecodable :: rest => rw [lacks_undecodable, one, next, Except.error.injEq, eq_comm]
  | .data line content :: rest =>
    simp only [lacks_data, Row, ← numbers?_eq_some, one, next]
    split
    next n hns => simp [hns]
    next hns =>
      rw [Except.error.injEq, eq_comm, and_iff_right]
      intro ns hns' hlen
      obtain ⟨n, rfl⟩ := List.length_eq_one_iff.mp hlen
      exact hns n hns'

/-- A count that can be read is never at fault. -/
theorem one_eq_error_iff_fault [Memory] (n : Nat) (item : Item) (hitem : item ≠ .nodeCount) :
    one fin item rs = .error e ↔ Fault fin n item 1 rs e := by
  rw [one_eq_error]
  constructor
  · exact .lacks
  · intro h
    cases h with
    | lacks hlacks => exact hlacks
    | tooManyNodes => exact absurd rfl hitem

theorem exists_one_eq_ok_and {P : Nat → List Record → Prop} :
    (∃ line count rest, one fin item rs = .ok (line, count, rest) ∧ P count rest) ↔
      ∃ count rest, Begins Record.Lists rs [[count]] rest ∧ P count rest := by
  simp only [← one_eq_ok fin item]
  constructor
  · intro h
    obtain ⟨line, count, rest, hone, h⟩ := h
    exact ⟨count, rest, ⟨line, hone⟩, h⟩
  · intro h
    obtain ⟨count, rest, ⟨line, hone⟩, h⟩ := h
    exact ⟨line, count, rest, hone, h⟩

theorem two_eq_error : two fin item rs = .error e ↔ Lacks fin item 2 rs e := by
  match rs with
  | [] => rw [lacks_nil, two, next, Except.error.injEq, eq_comm]
  | .undecodable :: rest => rw [lacks_undecodable, two, next, Except.error.injEq, eq_comm]
  | .data line content :: rest =>
    simp only [lacks_data, Row, ← numbers?_eq_some, two, next]
    split
    next u v hns => simp [hns]
    next hns =>
      rw [Except.error.injEq, eq_comm, and_iff_right]
      intro ns hns' hlen
      obtain ⟨u, v, rfl⟩ := List.length_eq_two.mp hlen
      exact hns u v hns'

/-- The next record as a pair of nodes below `n`. -/
def pair (fin n : Nat) (item : Item) (rs : List Record) :
    Except ReadError (Nat × (Nat × Nat) × List Record) :=
  match two fin item rs with
  | .error e => .error e
  | .ok (line, (u, v), rest) =>
    if n ≤ u then .error (.defect line (.nodeOutOfRange u n))
    else if n ≤ v then .error (.defect line (.nodeOutOfRange v n))
    else .ok (line, (u, v), rest)

/-- Reads `todo` pairs of nodes below `n`, the first of them being number `index` of the items; each
comes with its line. -/
def pairs (fin n : Nat) (items : Nat → Item) (index : Nat) (rs : List Record) :
    Nat → Except ReadError (List (Nat × (Nat × Nat)) × List Record)
  | 0 => .ok ([], rs)
  | todo + 1 => do
    let (line, p, rest) ← pair fin n (items index) rs
    let (found, rest) ← pairs fin n items (index + 1) rest todo
    return ((line, p) :: found, rest)

theorem edges_eq_pairs (g : Graph) : edges fin index g rs todo =
    (pairs fin g.size .edge index rs todo).map fun (found, rest) =>
      (g.joinAll (found.map Prod.snd), rest) := by
  induction todo generalizing index g rs with
  | zero => rfl
  | succ todo ih =>
    rw [edges, pairs, pair]
    cases two fin (.edge index) rs with
    | error e => rfl
    | ok row =>
      obtain ⟨line, ⟨u, v⟩, rest⟩ := row
      simp only [Graph.addEdge, Graph.edgeDefect?]
      split_ifs
      · rfl
      · rfl
      · simp only [ih, Graph.size_join]
        change _ = Except.map _ (pairs fin g.size .edge (index + 1) rest todo >>= _)
        cases pairs fin g.size .edge (index + 1) rest todo <;> rfl

theorem agents_eq_pairs : agents fin n index rs todo =
    (pairs fin n .agent index rs todo).map fun (found, _) =>
      found.map fun (line, p) => (line, ⟨p.1, p.2⟩) := by
  induction todo generalizing index rs with
  | zero => rfl
  | succ todo ih =>
    rw [agents, pairs, pair]
    cases two fin (.agent index) rs with
    | error e => rfl
    | ok row =>
      obtain ⟨line, ⟨u, v⟩, rest⟩ := row
      simp only [ih]
      split_ifs
      · rfl
      · rfl
      · change _ = Except.map _ (pairs fin n .agent (index + 1) rest todo >>= _)
        cases pairs fin n .agent (index + 1) rest todo <;> rfl

theorem pair_eq_ok {u v : Nat} : pair fin n item rs = .ok (line, (u, v), rest) ↔
    two fin item rs = .ok (line, (u, v), rest) ∧ u < n ∧ v < n := by
  constructor
  · intro h
    unfold pair at h
    split at h
    · cases h
    next htwo =>
      split_ifs at h with hu hv
      cases h
      exact ⟨htwo, Nat.not_le.mp hu, Nat.not_le.mp hv⟩
  · intro h
    obtain ⟨htwo, hu, hv⟩ := h
    simp only [pair, htwo, if_neg (Nat.not_le.mpr hu), if_neg (Nat.not_le.mpr hv)]

theorem pair_eq_error [Memory] : pair fin n item rs = .error e ↔ Fault fin n item 2 rs e := by
  constructor
  · intro h
    unfold pair at h
    split at h
    next htwo =>
      cases h
      exact .lacks (two_eq_error.mp htwo)
    next htwo =>
      obtain ⟨content, rfl, hns⟩ := two_eq_ok_iff.mp htwo
      split_ifs at h with hu hv
      · cases h
        exact .nodeOutOfRange (numbers?_eq_some.mp hns) (by simp [hu])
      · cases h
        exact .nodeOutOfRange (numbers?_eq_some.mp hns) (by simp [hu, hv])
  · intro h
    cases h with
    | lacks hlacks => rw [pair, two_eq_error.mpr hlacks]
    | @nodeOutOfRange _ line u v node content rest hrow hnode =>
      have htwo : two fin item (.data line content :: rest) = .ok (line, (u, v), rest) :=
        two_eq_ok_iff.mpr ⟨content, rfl, numbers?_eq_some.mpr hrow⟩
      simp only [pair, htwo]
      split_ifs with hu hv
      · simpa [hu] using hnode
      · simpa [hu, hv] using hnode
      · simp [hu, hv] at hnode

/-- The pairs before a fault are in order, and the fault is where the next one is awaited. -/
theorem pairs_eq_error [Memory] {items : Nat → Item} : pairs fin n items index rs todo = .error e ↔
    ∃ ps : List (Nat × Nat), ∃ mid, ps.length < todo ∧ (∀ p ∈ ps, p.1 < n ∧ p.2 < n) ∧
      Begins Record.Lists rs (ps.map fun p => [p.1, p.2]) mid ∧
      Fault fin n (items (index + ps.length)) 2 mid e := by
  induction todo generalizing index rs with
  | zero => simp [pairs]
  | succ todo ih =>
    -- a pair put in front of those that are read later hides none of their errors
    have hlater (line u v : Nat) (rest : List Record) : (do
        let (found, rest) ← pairs fin n items (index + 1) rest todo
        return ((line, (u, v)) :: found, rest)) = .error e ↔
        pairs fin n items (index + 1) rest todo = .error e := by
      rw [bind_eq_error, or_iff_left]
      intro h
      obtain ⟨_, _, hreturn⟩ := h
      cases hreturn
    simp only [pairs, bind_eq_error, pair_eq_error, Prod.exists, pair_eq_ok, hlater, ih]
    constructor
    · intro h
      rcases h with hfault | ⟨line, u, v, rest, ⟨htwo, huv⟩, ps, mid, hlt, hps, hrows, hfault⟩
      · exact ⟨[], rs, Nat.succ_pos todo, by simp, begins_nil.mpr rfl, hfault⟩
      · refine ⟨(u, v) :: ps, mid, Nat.succ_lt_succ hlt, List.forall_mem_cons.mpr ⟨huv, hps⟩,
          ((two_eq_ok _ _).mp ⟨line, htwo⟩).append hrows, ?_⟩
        rwa [List.length_cons, Nat.add_comm ps.length 1, ← Nat.add_assoc]
    · intro h
      obtain ⟨ps, mid, hlt, hps, hrows, hfault⟩ := h
      cases ps with
      | nil =>
        obtain rfl := begins_nil.mp hrows
        exact Or.inl hfault
      | cons p ps =>
        obtain ⟨hp, hps⟩ := List.forall_mem_cons.mp hps
        obtain ⟨rest, hfirst, hrows⟩ := (begins_append [[p.1, p.2]] _).mp hrows
        obtain ⟨line, htwo⟩ := (two_eq_ok fin (items index)).mpr hfirst
        rw [List.length_cons, Nat.add_comm ps.length 1, ← Nat.add_assoc] at hfault
        exact Or.inr ⟨line, p.1, p.2, rest, ⟨htwo, hp⟩, ps, mid, Nat.lt_of_succ_lt_succ hlt, hps,
          hrows, hfault⟩

theorem exists_data_of_pairs {items : Nat → Item} {found : List (Nat × (Nat × Nat))}
    (h : pairs fin n items index rs todo = .ok (found, rest)) {i : Nat} {f : Nat × (Nat × Nat)}
    (hf : found[i]? = some f) : ∃ content, rs[i]? = some (.data f.1 content) := by
  induction todo generalizing index rs found i with
  | zero =>
    cases h
    cases hf
  | succ todo ih =>
    simp only [pairs, bind_eq_ok, Prod.exists, pair_eq_ok, two_eq_ok_iff] at h
    obtain ⟨line, u, v, mid, ⟨⟨content, rfl, -⟩, -⟩, found, rest, hfound, hreturn⟩ := h
    cases hreturn
    cases i with
    | zero =>
      cases hf
      exact ⟨content, rfl⟩
    | succ i => exact ih hfound hf

/-- The line that comes with an agent is the one that it was read from. -/
theorem exists_data_of_agents {found : List (Nat × Agent)}
    (h : agents fin n index rs todo = .ok found) {i : Nat} {f : Nat × Agent}
    (hf : found[i]? = some f) : ∃ content, rs[i]? = some (.data f.1 content) := by
  rw [agents_eq_pairs] at h
  cases hpairs : pairs fin n .agent index rs todo with
  | error e =>
    rw [hpairs] at h
    cases h
  | ok r =>
    rw [hpairs] at h
    cases h
    rw [List.getElem?_map, Option.map_eq_some_iff] at hf
    obtain ⟨f, hf, rfl⟩ := hf
    exact exists_data_of_pairs hpairs hf

theorem map_eq_error {ε α β : Type} {x : Except ε α} {f : α → β} {e : ε} :
    x.map f = .error e ↔ x = .error e := by
  cases x <;> simp [Except.map]

theorem edges_eq_error [Memory] {g : Graph} : edges fin 0 g rs todo = .error e ↔
    ∃ es : List (Nat × Nat), ∃ mid, es.length < todo ∧ (∀ x ∈ es, x.1 < g.size ∧ x.2 < g.size) ∧
      Begins Record.Lists rs (es.map fun x => [x.1, x.2]) mid ∧
      Fault fin g.size (.edge es.length) 2 mid e := by
  rw [edges_eq_pairs, map_eq_error, pairs_eq_error]
  simp only [Nat.zero_add]

theorem agents_eq_error [Memory] : agents fin n 0 rs todo = .error e ↔
    ∃ as : List Agent, ∃ mid, as.length < todo ∧ (∀ a ∈ as, a.initial < n ∧ a.goal < n) ∧
      Begins Record.Lists rs (as.map fun a => [a.initial, a.goal]) mid ∧
      Fault fin n (.agent as.length) 2 mid e := by
  have hsurj : Function.Surjective fun a : Agent => (a.initial, a.goal) :=
    fun p => ⟨⟨p.1, p.2⟩, rfl⟩
  rw [agents_eq_pairs, map_eq_error, pairs_eq_error, (List.map_surjective_iff.mpr hsurj).exists]
  simp only [Nat.zero_add, List.length_map, List.forall_mem_map, List.map_map, Function.comp_def]

end Reader

end AgentPaths
