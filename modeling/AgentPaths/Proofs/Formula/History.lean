import Mathlib.Data.List.Induction
import Mathlib.Data.List.Nodup
import AgentPaths.Proofs.Formula.Listing

/-!
The calls that a formula can get while it is made, and what it remembers of them: the keys in the
order in which they were first asked for, each with its place in that order for a variable. Failed
calls, look-ups and clauses leave no trace in it.
-/
namespace AgentPaths

/-- A further element counts only if it is new. -/
theorem eraseDups_concat {α : Type} [DecidableEq α] (l : List α) (a : α) :
    (l ++ [a]).eraseDups = l.eraseDups ++ if a ∈ l then [] else [a] := by
  rw [List.eraseDups_append, List.removeAll]
  by_cases h : a ∈ l <;> simp [h, List.eraseDups_cons]

namespace KeyTable

variable {T : KeyTable} {ks : List Key} {k : Key} {i : Nat}

theorem Lists.nodup (h : T.Lists ks) : ks.Nodup := by
  rw [List.nodup_iff_getElem?_ne_getElem?]
  intro i j hij hj hsame
  have hat := List.getElem?_eq_getElem hj
  have hi := (h.find _ i).mpr (hsame.trans hat)
  have hj := (h.find _ j).mpr hat
  rw [hi, Option.some.injEq] at hj
  omega

/-- The variable of a key is its place in the list. -/
theorem Lists.find?_eq (h : T.Lists ks) (k : Key) :
    T.find? k = if k ∈ ks then some (ks.idxOf k) else none := by
  split
  next hk => exact (h.find k _).mpr (List.getElem?_idxOf hk)
  next hk => exact h.find?_eq_none.mpr hk

theorem intern_of_find (h : T.find? k = some i) : T.intern k = (i, T) := by
  simp [intern, h]

/-- Asking for a key that the table covers puts it at the end of the list, unless it is there. -/
theorem Lists.intern (h : T.Lists ks) (hcovers : T.Covers k) :
    (T.intern k).2.Lists (ks ++ if k ∈ ks then [] else [k]) := by
  split
  next hk =>
    obtain ⟨i, hi⟩ := h.mem_iff.mp hk
    rwa [intern_of_find hi, List.append_nil]
  next hk => exact h.intern_of_not_mem hcovers hk

end KeyTable

namespace Formula

/-- The calls to a formula that is being made. -/
inductive Call where
  | createOrGet (k : Key)
  | get (k : Key)
  | find (k : Key)
  | contains (k : Key)
  | push (c : Clause)

/-- The formula after a call. A call that fails leaves it as it is, as those do that only look
something up. -/
def afterCall (f : Formula) : Call → Formula
  | .createOrGet k => match f.createOrGet k with
    | .error _ => f
    | .ok (_, f') => f'
  | .get _ => f
  | .find _ => f
  | .contains _ => f
  | .push c => f.push c

def afterCalls (f : Formula) (calls : List Call) : Formula := calls.foldl afterCall f

/-- One of the calls has asked for the literal of `k` and has been given `l`. -/
def Gave (f : Formula) (calls : List Call) (k : Key) (l : Literal) : Prop :=
  ∃ before rest f', calls = before ++ .createOrGet k :: rest ∧
    (f.afterCalls before).createOrGet k = .ok (l, f')

/-- The key that a call asks to have a variable, if the table covers it. -/
def Call.key? (T : KeyTable) : Call → Option Key
  | .createOrGet k => if T.Covers k then some k else none
  | _ => none

def Call.clause? : Call → Option Clause
  | .push c => some c
  | _ => none

/-- The keys that have been given a variable, in the order in which they were first asked for. -/
def created (T : KeyTable) (calls : List Call) : List Key :=
  (calls.filterMap (Call.key? T)).eraseDups

/-- The formula answers from the list `ks` of keys: their variables are their places in it. -/
structure Recalls (f : Formula) (ks : List Key) : Prop where
  distinct : ks.Nodup
  varCount : f.varCount = ks.length
  createOrGet : ∀ k, f.table.Covers k → ∃ f', f.createOrGet k =
    .ok (.positive (if k ∈ ks then ks.idxOf k else ks.length), f')
  find : ∀ k, f.table.Covers k →
    f.find? k = .ok (if k ∈ ks then some (.positive (ks.idxOf k)) else none)
  get : ∀ k, f.table.Covers k → f.get k = if k ∈ ks then .ok (.positive (ks.idxOf k))
    else .error (.keyUnknown k.time k.agent k.node)
  contains : ∀ k, f.table.Covers k → f.contains k = .ok (decide (k ∈ ks))
  outside : ∀ k, ¬f.table.Covers k → f.createOrGet k = .error (f.outside k) ∧
    f.find? k = .error (f.outside k) ∧ f.get k = .error (f.outside k) ∧
    f.contains k = .error (f.outside k)

variable {f : Formula} {calls : List Call} {ks : List Key} {k k' : Key} {l l' : Literal}

theorem recalls_of_lists (h : f.table.Lists ks) : f.Recalls ks := by
  have hfind (k : Key) (hk : f.table.Covers k) :
      f.find? k = .ok (if k ∈ ks then some (.positive (ks.idxOf k)) else none) := by
    rw [find?, if_pos hk, h.find?_eq]
    split <;> rfl
  have hfailed (k : Key) (hk : ¬f.table.Covers k) : f.find? k = .error (f.outside k) := if_neg hk
  constructor
  · exact h.nodup
  · exact h.count
  · intro k hk
    refine ⟨(f.intern k).2, ?_⟩
    have hvar : (f.table.intern k).1 = if k ∈ ks then ks.idxOf k else ks.length := by
      split
      next hmem =>
        rw [KeyTable.intern_of_find ((h.find k _).mpr (List.getElem?_idxOf hmem))]
      next hnew => rw [h.intern_fst hnew, h.count]
    rw [Formula.createOrGet, if_pos hk, ← hvar]
    rfl
  · exact hfind
  · intro k hk
    rw [Formula.get, hfind k hk]
    by_cases hmem : k ∈ ks <;> simp [hmem]
  · intro k hk
    rw [Formula.contains, hfind k hk]
    split <;> simp_all [Except.map]
  · intro k hk
    refine ⟨if_neg hk, hfailed k hk, ?_, ?_⟩
    · rw [Formula.get, hfailed k hk]
    · rw [Formula.contains, hfailed k hk]
      rfl

/-- Only a request that succeeds changes the table. -/
theorem table_afterCall (f : Formula) (c : Call) : (f.afterCall c).table =
    match c.key? f.table with
    | some k => (f.table.intern k).2
    | none => f.table := by
  cases c with
  | createOrGet k =>
    unfold afterCall createOrGet Call.key?
    by_cases hk : f.table.Covers k
    · simp only [if_pos hk]
      rfl
    · simp only [if_neg hk]
  | get k => rfl
  | find k => rfl
  | contains k => rfl
  | push c => rfl

theorem sizes_afterCall (f : Formula) (c : Call) :
    (f.afterCall c).table.sizes = f.table.sizes := by
  rw [table_afterCall]
  split
  next => exact KeyTable.sizes_intern _ _
  next => rfl

theorem sizes_afterCalls (f : Formula) (calls : List Call) :
    (f.afterCalls calls).table.sizes = f.table.sizes := by
  induction calls generalizing f with
  | nil => rfl
  | cons c calls ih => exact (ih _).trans (sizes_afterCall f c)

theorem covers_afterCalls : (f.afterCalls calls).table.Covers k ↔ f.table.Covers k := by
  have hsizes := sizes_afterCalls f calls
  simp only [KeyTable.sizes, Prod.mk.injEq] at hsizes
  rw [KeyTable.Covers, hsizes.1, hsizes.2.1, hsizes.2.2]
  rfl

theorem key?_afterCalls (f : Formula) (calls : List Call) (c : Call) :
    c.key? (f.afterCalls calls).table = c.key? f.table := by
  cases c <;> simp [Call.key?, covers_afterCalls]

theorem afterCalls_concat (f : Formula) (calls : List Call) (c : Call) :
    f.afterCalls (calls ++ [c]) = (f.afterCalls calls).afterCall c := by
  simp [afterCalls]

/-- Further calls leave the keys so far at their places. -/
theorem created_prefix (T : KeyTable) (calls more : List Call) :
    created T calls <+: created T (calls ++ more) := by
  rw [created, created, List.filterMap_append, List.eraseDups_append]
  exact List.prefix_append _ _

theorem created_concat (T : KeyTable) (calls : List Call) (c : Call) :
    created T (calls ++ [c]) = created T calls ++ match c.key? T with
      | some k => if k ∈ created T calls then [] else [k]
      | none => [] := by
  simp only [created, List.mem_eraseDups]
  cases hk : c.key? T with
  | none => simp [List.filterMap_append, hk]
  | some k =>
    have hlast : [c].filterMap (Call.key? T) = [k] := by simp [hk]
    rw [List.filterMap_append, hlast, eraseDups_concat]

theorem mem_created {T : KeyTable} : k ∈ created T calls ↔ T.Covers k ∧ .createOrGet k ∈ calls := by
  simp only [created, List.mem_eraseDups, List.mem_filterMap]
  constructor
  · intro h
    obtain ⟨c, hc, hkey⟩ := h
    cases c with
    | createOrGet k' =>
      obtain ⟨hcovers, rfl⟩ : T.Covers k' ∧ k' = k := by simpa [Call.key?] using hkey
      exact ⟨hcovers, hc⟩
    | get | find | contains | push => cases hkey
  · intro h
    exact ⟨_, h.2, if_pos h.1⟩

/-- What a single call does to the list of the keys. -/
theorem lists_afterCall (h : f.table.Lists ks) (c : Call) : (f.afterCall c).table.Lists
    (ks ++ match c.key? f.table with
      | some k => if k ∈ ks then [] else [k]
      | none => []) := by
  rw [table_afterCall]
  cases hk : c.key? f.table with
  | none => simpa using h
  | some k =>
    have hcovers : f.table.Covers k := by
      cases c with
      | createOrGet k' =>
        obtain ⟨hcovers, rfl⟩ : f.table.Covers k' ∧ k' = k := by simpa [Call.key?] using hk
        exact hcovers
      | get | find | contains | push => cases hk
    exact h.intern hcovers

/-- A table without keys lists after any calls the keys that they have created. -/
theorem lists_afterCalls (h : f.table.Lists []) (calls : List Call) :
    (f.afterCalls calls).table.Lists (created f.table calls) := by
  induction calls using List.reverseRecOn with
  | nil => exact h
  | append_singleton calls c ih =>
    rw [afterCalls_concat, created_concat, ← key?_afterCalls f calls]
    exact lists_afterCall ih c

theorem clauses_afterCall (f : Formula) (c : Call) :
    (f.afterCall c).clauses.toList = f.clauses.toList ++ c.clause?.toList := by
  cases c with
  | createOrGet k =>
    unfold afterCall createOrGet
    by_cases hk : f.table.Covers k
    · simp [hk, Formula.intern, Call.clause?]
    · simp [hk, Call.clause?]
  | get | find | contains => simp [afterCall, Call.clause?]
  | push c => simp [afterCall, Formula.push, Call.clause?]

theorem clauses_afterCalls (f : Formula) (calls : List Call) :
    (f.afterCalls calls).clauses.toList = f.clauses.toList ++ calls.filterMap Call.clause? := by
  induction calls generalizing f with
  | nil => simp [afterCalls]
  | cons c calls ih =>
    have hrest : f.afterCalls (c :: calls) = (f.afterCall c).afterCalls calls := rfl
    rw [hrest, ih, clauses_afterCall, List.append_assoc]
    cases hc : c.clause? <;> simp [hc]

/-- A request that succeeds is answered with the place of its key. -/
theorem createOrGet_eq_ok {f' : Formula}
    (hanswer : f.createOrGet k = .ok (l, f')) :
    f.table.Covers k ∧ ∃ i, f'.table.find? k = some i ∧ l = .positive i := by
  unfold Formula.createOrGet at hanswer
  split at hanswer
  next hk =>
    cases hanswer
    refine ⟨hk, (f.table.intern k).1, ?_, rfl⟩
    exact (KeyTable.find?_intern hk).trans (if_pos rfl)
  next => cases hanswer

/-- The literals that are given out are those of the places of the keys. -/
theorem gave_iff (h : f.table.Lists []) :
    Gave f calls k l ↔ ∃ i, (created f.table calls)[i]? = some k ∧ l = .positive i := by
  have hplace {l : Literal} (hgave : Gave f calls k l) :
      ∃ i, (created f.table calls)[i]? = some k ∧ l = .positive i := by
    obtain ⟨before, rest, f', rfl, hanswer⟩ := hgave
    obtain ⟨_, i, hi, rfl⟩ := createOrGet_eq_ok hanswer
    have hafter : f.afterCalls (before ++ [.createOrGet k]) = f' := by
      rw [afterCalls_concat, afterCall, hanswer]
    have hat := ((lists_afterCalls h _).find k i).mp (hafter ▸ hi)
    -- the calls that follow leave the key at its place
    obtain ⟨later, hlater⟩ := created_prefix f.table (before ++ [.createOrGet k]) rest
    rw [List.append_assoc, List.singleton_append] at hlater
    refine ⟨i, ?_, rfl⟩
    rw [← hlater, List.getElem?_append_left (List.getElem?_eq_some_iff.mp hat).1, hat]
  refine ⟨hplace, fun hi => ?_⟩
  obtain ⟨i, hi, rfl⟩ := hi
  obtain ⟨hcovers, hmem⟩ := mem_created.mp (List.mem_of_getElem? hi)
  obtain ⟨before, rest, rfl⟩ := List.append_of_mem hmem
  obtain ⟨f', hanswer⟩ := (recalls_of_lists (lists_afterCalls h before)).createOrGet k
    (covers_afterCalls.mpr hcovers)
  have hgave : Gave f (before ++ .createOrGet k :: rest) k _ :=
    ⟨before, rest, f', rfl, hanswer⟩
  obtain ⟨j, hj, hsame⟩ := hplace hgave
  have hlists := lists_afterCalls h (before ++ .createOrGet k :: rest)
  obtain rfl : j = i := Option.some.inj (((hlists.find k j).mpr hj).symm.trans
    ((hlists.find k i).mpr hi))
  exact hsame ▸ hgave

/-- Literals that have been given are the same just if their keys are. -/
theorem gave_literal_eq_iff (h : f.table.Lists []) (hl : Gave f calls k l)
    (hl' : Gave f calls k' l') : l = l' ↔ k = k' := by
  obtain ⟨i, hi, rfl⟩ := (gave_iff h).mp hl
  obtain ⟨j, hj, rfl⟩ := (gave_iff h).mp hl'
  have hlists := lists_afterCalls h calls
  constructor
  · intro hsame
    cases hsame
    exact Option.some.inj (hi.symm.trans hj)
  · intro hsame
    subst hsame
    rw [← hlists.find] at hi hj
    rw [Option.some.inj (hi.symm.trans hj)]

/-- The variables that have been given are those below the count. -/
theorem exists_gave_iff (h : f.table.Lists []) {i : Nat} :
    (∃ k, Gave f calls k (.positive i)) ↔ i < (f.afterCalls calls).varCount := by
  rw [varCount, (lists_afterCalls h calls).count]
  constructor
  · rintro ⟨k, hk⟩
    obtain ⟨j, hj, hij⟩ := (gave_iff h).mp hk
    cases hij
    exact (List.getElem?_eq_some_iff.mp hj).1
  · intro hi
    exact ⟨_, (gave_iff h).mpr ⟨i, List.getElem?_eq_getElem hi, rfl⟩⟩

/-- What calls have made of an empty formula is known from the keys that they have created: these
have the variables from 0 on, in the order of the first requests, and everything that is asked about
a key is answered from its place among them. -/
theorem history_exact [Memory] (m agents nodes : Nat) (calls : List Call) :
    let f := empty m agents nodes
    let ks := created f.table calls
    (∀ g, ofSizes m agents nodes = .ok g → g = f) ∧
    (∀ k, (f.afterCalls calls).table.Covers k ↔
      k.time ≤ m ∧ k.agent < agents ∧ k.node < nodes) ∧
    (∀ k l, Gave f calls k l ↔ ∃ i, ks[i]? = some k ∧ l = .positive i) ∧
    (∀ k l k' l', Gave f calls k l → Gave f calls k' l' → (l = l' ↔ k = k')) ∧
    (∀ i, (∃ k, Gave f calls k (.positive i)) ↔ i < (f.afterCalls calls).varCount) ∧
    (f.afterCalls calls).Recalls ks ∧
    (f.afterCalls calls).clauses.toList = calls.filterMap Call.clause? := by
  intro f ks
  have hempty : f.table.Lists [] := KeyTable.lists_empty m agents nodes
  have hlists : (f.afterCalls calls).table.Lists ks := lists_afterCalls hempty calls
  refine ⟨?_, ?_, fun k l => gave_iff hempty, ?_, fun i => exists_gave_iff hempty,
    recalls_of_lists hlists, clauses_afterCalls f calls⟩
  · intro g hg
    unfold ofSizes at hg
    split at hg
    next => exact (Except.ok.inj hg).symm
    next => cases hg
  · intro k
    rw [covers_afterCalls]
    exact and_congr_left' Nat.lt_succ_iff
  · intro k l k' l' hl hl'
    exact gave_literal_eq_iff hempty hl hl'

/-- Calls on a formula for two agents and three nodes: the first key is asked for again after
another one, the key of the fourth call is too late, and that of the fifth has no variable yet. -/
def callsOnSix : List Call :=
  [.createOrGet ⟨1, 0, 2⟩, .push [], .createOrGet ⟨0, 1, 0⟩, .createOrGet ⟨2, 0, 0⟩, .get ⟨0, 0, 0⟩,
    .createOrGet ⟨1, 0, 2⟩, .createOrGet ⟨0, 0, 0⟩]

section

attribute [local instance] Memory.ample

theorem history_exact_six :
    created (KeyTable.empty 1 2 3) callsOnSix = [⟨1, 0, 2⟩, ⟨0, 1, 0⟩, ⟨0, 0, 0⟩] ∧
    Gave (empty 1 2 3) callsOnSix ⟨0, 0, 0⟩ (.positive 2) ∧
    ((empty 1 2 3).afterCalls callsOnSix).Recalls [⟨1, 0, 2⟩, ⟨0, 1, 0⟩, ⟨0, 0, 0⟩] := by
  have hcreated : created (KeyTable.empty 1 2 3) callsOnSix =
      [⟨1, 0, 2⟩, ⟨0, 1, 0⟩, ⟨0, 0, 0⟩] := by decide
  obtain ⟨_, _, hgave, _, _, hrecalls, _⟩ := history_exact 1 2 3 callsOnSix
  exact ⟨hcreated, (hgave _ _).mpr ⟨2, by decide, rfl⟩, hcreated ▸ hrecalls⟩

end

end Formula

end AgentPaths
