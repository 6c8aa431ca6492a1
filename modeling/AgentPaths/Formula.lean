import AgentPaths.Logic
import AgentPaths.Memory

/-!
Formulas whose variables are named by keys: agent, time and node. A table of all keys holds the
variables given out so far; they are numbered from 0 in the order in which their keys were first
asked for, whatever clauses are added in between.
-/
namespace AgentPaths

/-- "At `time`, `agent` is on `node`." -/
structure Key where
  time : Nat
  agent : Nat
  node : Nat
deriving DecidableEq

structure KeyTable where
  makespan : Nat
  agents : Nat
  nodes : Nat
  ids : Array (Option Nat)
  /-- The number of variables given out, which is the next one to be given out. -/
  count : Nat
  ids_size : ids.size = (makespan + 1) * agents * nodes

namespace KeyTable

/-- What keeps the table of these sizes from being laid out, if anything does. An entry takes two
words. A size of zero leaves a table without entries, but the other sizes have to make a table that
can be addressed all the same. -/
def lack? [Memory] (makespan agents nodes : Nat) : Option Misuse :=
  if addressBound ≤ (makespan + 1) * max agents 1 * max nodes 1 then some .tooLarge
  else Memory.lack? (16 * ((makespan + 1) * agents * nodes))

/-- The table of these sizes can be laid out. -/
def Fits [Memory] (makespan agents nodes : Nat) : Prop := lack? makespan agents nodes = none

instance [Memory] (makespan agents nodes : Nat) : Decidable (Fits makespan agents nodes) :=
  inferInstanceAs (Decidable (_ = _))

theorem fits_iff [Memory] {makespan agents nodes : Nat} : Fits makespan agents nodes ↔
    (makespan + 1) * max agents 1 * max nodes 1 < addressBound ∧
      Memory.lack? (16 * ((makespan + 1) * agents * nodes)) = none := by
  unfold Fits lack?
  split
  next h => simp [Nat.not_lt.mpr h]
  next h => simp [Nat.not_le.mp h]

theorem Fits.lack? [Memory] {makespan agents nodes : Nat} (h : Fits makespan agents nodes) :
    lack? makespan agents nodes = none := h

theorem exists_lack?_of_not_fits [Memory] {makespan agents nodes : Nat}
    (h : ¬Fits makespan agents nodes) : ∃ misuse, lack? makespan agents nodes = some misuse :=
  Option.ne_none_iff_exists'.mp h

def empty (makespan agents nodes : Nat) : KeyTable :=
  ⟨makespan, agents, nodes, Array.replicate ((makespan + 1) * agents * nodes) none, 0,
    Array.size_replicate⟩

/-- The keys that the table has an entry for. -/
def Covers (T : KeyTable) (k : Key) : Prop :=
  k.time < T.makespan + 1 ∧ k.agent < T.agents ∧ k.node < T.nodes

@[inline] instance (T : KeyTable) (k : Key) : Decidable (T.Covers k) :=
  inferInstanceAs (Decidable (_ ∧ _ ∧ _))

@[inline] def slot (T : KeyTable) (k : Key) : Nat :=
  (k.time * T.agents + k.agent) * T.nodes + k.node

theorem mul_add_lt {a b i j : Nat} (hi : i < a) (hj : j < b) : i * b + j < a * b := by
  have h : (i + 1) * b ≤ a * b := Nat.mul_le_mul_right b hi
  rw [Nat.add_mul, Nat.one_mul] at h
  omega

theorem mul_add_inj {b i j x y : Nat} (hj : j < b) (hy : y < b) (h : i * b + j = x * b + y) :
    i = x ∧ j = y := by
  have hdiv := congrArg (· / b) h
  have hmod := congrArg (· % b) h
  simp only [Nat.mul_comm _ b, Nat.mul_add_mod, Nat.mod_eq_of_lt hj, Nat.mod_eq_of_lt hy,
    Nat.mul_add_div (Nat.zero_lt_of_lt hj), Nat.div_eq_of_lt hj, Nat.div_eq_of_lt hy,
    Nat.add_zero] at hdiv hmod
  exact ⟨hdiv, hmod⟩

theorem slot_lt {T : KeyTable} {k : Key} (h : T.Covers k) : T.slot k < T.ids.size :=
  T.ids_size ▸ mul_add_lt (mul_add_lt h.1 h.2.1) h.2.2

theorem slot_inj {T : KeyTable} {k k' : Key} (h : T.Covers k) (h' : T.Covers k')
    (hs : T.slot k = T.slot k') : k = k' := by
  obtain ⟨hrow, hnode⟩ := mul_add_inj h.2.2 h'.2.2 hs
  obtain ⟨htime, hagent⟩ := mul_add_inj h.2.1 h'.2.1 hrow
  cases k
  cases k'
  simp_all

@[inline] def find? (T : KeyTable) (k : Key) : Option Nat :=
  if T.Covers k then T.ids.getD (T.slot k) none else none

/-- The variable of a key that the table covers, given out now if the key has none. -/
def intern (T : KeyTable) (k : Key) : Nat × KeyTable :=
  match T.find? k with
  | some id => (id, T)
  | none =>
    let i := T.slot k
    match T with
    | ⟨makespan, agents, nodes, ids, count, ids_size⟩ => (count,
      ⟨makespan, agents, nodes, ids.setIfInBounds i (some count), count + 1,
        by simpa using ids_size⟩)

@[simp] theorem find?_empty (m a n : Nat) (k : Key) : (empty m a n).find? k = none := by
  unfold find? empty
  simp only [Array.getD_eq_getD_getElem?, Array.getElem?_replicate]
  repeat' split
  all_goals rfl

theorem covers_intern {T : KeyTable} {k k' : Key} : (T.intern k).2.Covers k' ↔ T.Covers k' := by
  unfold intern
  split <;> rfl

/-- Giving out a variable changes the table at its key alone. -/
theorem find?_intern {T : KeyTable} {k k' : Key} (h : T.Covers k) :
    (T.intern k).2.find? k' = if k' = k then some (T.intern k).1 else T.find? k' := by
  unfold intern
  split
  next id hid =>
    split
    next he => rw [he, hid]
    next => rfl
  next hnone =>
    have hlt := slot_lt h
    change (if T.Covers k' then
      (T.ids.setIfInBounds (T.slot k) (some T.count)).getD (T.slot k') none else none) = _
    by_cases hk' : T.Covers k'
    · by_cases he : k' = k
      · subst he
        simp [hlt, hk']
      · have hne : T.slot k ≠ T.slot k' := fun hs => he (slot_inj h hk' hs).symm
        simp [find?, hk', hne, he]
    · have hne : k' ≠ k := fun he => hk' (he ▸ h)
      simp [find?, hk', hne]

end KeyTable

/-- Clauses over the variables that a table has given out. -/
structure Formula where
  table : KeyTable
  clauses : Array Clause

namespace Formula

def empty (makespan agents nodes : Nat) : Formula := ⟨KeyTable.empty makespan agents nodes, #[]⟩

/-- The formula without clauses for keys of these sizes, if its table fits. -/
def ofSizes [Memory] (makespan agents nodes : Nat) : Except Misuse Formula :=
  match KeyTable.lack? makespan agents nodes with
  | none => .ok (empty makespan agents nodes)
  | some misuse => .error misuse

def makespan (f : Formula) : Nat := f.table.makespan

/-- The number of variables; they are the numbers below it. -/
def varCount (f : Formula) : Nat := f.table.count

def outside (f : Formula) (k : Key) : Misuse :=
  .keyOutside k.time k.agent k.node (f.table.makespan + 1) f.table.agents f.table.nodes

/-- The literal of a key that the table covers, with a new variable if the key has none. -/
def intern (f : Formula) (k : Key) : Literal × Formula :=
  match f with
  | ⟨table, clauses⟩ =>
    let (id, table) := table.intern k
    (.positive id, ⟨table, clauses⟩)

/-- The literal of a key, with a new variable if the key has none. -/
def createOrGet (f : Formula) (k : Key) : Except Misuse (Literal × Formula) :=
  if f.table.Covers k then .ok (f.intern k) else .error (f.outside k)

/-- The literal of a key, if it has a variable. -/
def find? (f : Formula) (k : Key) : Except Misuse (Option Literal) :=
  if f.table.Covers k then .ok ((f.table.find? k).map .positive) else .error (f.outside k)

def get (f : Formula) (k : Key) : Except Misuse Literal :=
  match f.find? k with
  | .error m => .error m
  | .ok (some l) => .ok l
  | .ok none => .error (.keyUnknown k.time k.agent k.node)

def contains (f : Formula) (k : Key) : Except Misuse Bool := (f.find? k).map Option.isSome

def push (f : Formula) (c : Clause) : Formula := { f with clauses := f.clauses.push c }

/-- Whether an assignment makes every clause true, if it is long enough to tell. -/
def satisfied? (f : Formula) (a : Assignment) : Option Bool :=
  AgentPaths.satisfied? a f.clauses.toList

end Formula

end AgentPaths
