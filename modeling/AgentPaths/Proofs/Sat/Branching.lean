import AgentPaths.Proofs.Sat.Certificate
import AgentPaths.Sat.Branching

/-!
The search in a fixed order finds the first model. Values that agree with a model are never given up
for a clash, so the search comes to this model unless it finds another one before, and that comes
first.
-/
namespace AgentPaths.Sat

/-- Below `n` the first of two valuations is no greater than the second, when variables are compared
in order and false is put before true. -/
def Precedes (n : Nat) (a b : Nat → Bool) : Prop :=
  ∀ v < n, (∀ u < v, a u = b u) → a v = true → b v = true

variable {val : Nat → Bool} {f f' : Falses} {v k : Nat}

namespace Falses

def Knows (f : Falses) (v : Nat) : Prop := f.has (.positive v) = true ∨ f.has (.negative v) = true

theorem value_eq_of_positive (h : f.has (.positive v) = true) : f.value v = false := by
  rw [value, h]
  rfl

theorem Agrees.eq_true (hf : f.Agrees val) (h : f.has (.negative v) = true) : val v = true := by
  have hfalse := hf _ h
  rwa [Code.holds_negative, Bool.not_eq_false'] at hfalse

theorem Agrees.eq_false (hf : f.Agrees val) (h : f.has (.positive v) = true) : val v = false := by
  have hfalse := hf _ h
  rwa [Code.holds_positive] at hfalse

/-- A known value is that of every valuation that agrees. -/
theorem Agrees.value_eq (hf : f.Agrees val) (hv : f.Knows v) : f.value v = val v := by
  cases hpositive : f.has (.positive v) with
  | true => rw [value_eq_of_positive hpositive, hf.eq_false hpositive]
  | false =>
    rcases hv with hv | hv
    · cases hpositive.symm.trans hv
    · rw [value, hpositive, hf.eq_true hv]
      rfl

/-- More is known. -/
structure Grows (f f' : Falses) : Prop where
  size : f'.bytes.size = f.bytes.size
  has : ∀ c, f.has c = true → f'.has c = true

theorem Grows.refl (f : Falses) : f.Grows f := ⟨rfl, fun _ h => h⟩

theorem Grows.trans {f'' : Falses} (h : f.Grows f') (h' : f'.Grows f'') : f.Grows f'' :=
  ⟨h'.size.trans h.size, fun c hc => h'.has c (h.has c hc)⟩

theorem Grows.knows (h : f.Grows f') (hv : f.Knows v) : f'.Knows v := hv.imp (h.has _) (h.has _)

theorem lt_of_has {c : Code} (h : f.has c = true) : c < f.bytes.size := by
  apply Nat.lt_of_not_le
  intro hle
  rw [has, Marks.get, dif_neg (Nat.not_lt.mpr hle)] at h
  cases h

theorem has_add_self {c : Code} (h : c < f.bytes.size) : (f.add c).has c = true := by
  rw [has, add, Marks.get_put_self 1 h]
  rfl

theorem grows_add (f : Falses) (c : Code) : f.Grows (f.add c) := by
  constructor
  · exact Marks.size_put f c 1
  · intro d hd
    by_cases h : c = d
    · exact h ▸ has_add_self (lt_of_has (h ▸ hd))
    · rwa [has, add, Marks.get_put_of_ne 1 h]

end Falses

namespace Index

variable {x : Index} {numbers : Array Nat} {queue : List Code} {found : Falses}

theorem visit_grows {r : Falses × List Code} (h : x.visit numbers k f queue = some r) :
    f.Grows r.1 := by
  fun_induction visit x numbers k f queue with
  | case1 =>
    cases h
    exact .refl _
  | case2 _ _ _ _ ih => exact ih h
  | case3 _ _ _ _ _ _ ih => exact ih h
  | case4 _ _ _ _ _ _ _ _ ih => exact ih h
  | case5 _ f _ _ _ l _ _ ih => exact (f.grows_add l.neg).trans (ih h)
  | case6 => cases h

theorem propagate_grows (h : x.propagate k f queue = some found) : f.Grows found := by
  fun_induction propagate x k f queue with
  | case1 =>
    cases h
    exact .refl _
  | case2 =>
    cases h
    exact .refl _
  | case3 => cases h
  | case4 _ _ _ _ _ _ _ hvisit ih => exact (visit_grows hvisit).trans (ih h)

theorem assume_grows {c : Code} (h : x.assume f c = some found) :
    (f.add c.neg).Grows found := propagate_grows h

theorem branch_grows (h : x.branch k f = some found) : f.Grows found := by
  induction k generalizing f with
  | zero =>
    rw [branch] at h
    split at h
    next =>
      cases h
      exact .refl _
    next => cases h
  | succ k ih =>
    have hassume {c : Code} (h : (x.assume f c).bind (x.branch k) = some found) :
        f.Grows found := by
      obtain ⟨f', hf', hfound⟩ := Option.bind_eq_some_iff.mp h
      exact (f.grows_add c.neg).trans ((assume_grows hf').trans (ih hfound))
    rw [branch] at h
    split at h
    next => exact ih h
    next =>
      split at h
      next r hr =>
        cases h
        exact hassume hr
      next => exact hassume h

/-- What is found satisfies the clauses. -/
theorem models_of_branch (h : x.branch k f = some found) :
    Models found.value x.clauses.toList := by
  induction k generalizing f with
  | zero =>
    rw [branch] at h
    split at h
    next hall =>
      cases h
      intro c hc
      rw [Array.all_eq_true_iff_forall_mem] at hall
      exact List.any_eq_true.mp (hall c (Array.mem_def.mpr hc))
    next => cases h
  | succ k ih =>
    have hassume {c : Code} (h : (x.assume f c).bind (x.branch k) = some found) :
        Models found.value x.clauses.toList := by
      obtain ⟨f', _, hfound⟩ := Option.bind_eq_some_iff.mp h
      exact ih hfound
    rw [branch] at h
    split at h
    next => exact ih h
    next =>
      split at h
      next r hr =>
        cases h
        exact hassume hr
      next => exact hassume h

/-- Clauses that have a model do not clash with what agrees with it. -/
theorem exists_visit (hmodels : Models val x.clauses.toList) (hf : f.Agrees val)
    (numbers : Array Nat) (k : Nat) (queue : List Code) :
    ∃ r, x.visit numbers k f queue = some r ∧ r.1.Agrees val := by
  fun_induction visit x numbers k f queue with
  | case1 f queue => exact ⟨_, rfl, hf⟩
  | case2 _ _ _ _ ih => exact ih hf
  | case3 _ _ _ _ _ _ ih => exact ih hf
  | case4 _ _ _ _ _ _ _ _ ih => exact ih hf
  | case5 _ f _ c hc l hl _ ih =>
    have hfair := hmodels.demand_fair hf hc
    rw [hl] at hfair
    cases hfair with
    | literal htrue => exact ih (hf.add_neg htrue)
  | case6 _ f _ c hc hclash =>
    have hfair := hmodels.demand_fair hf hc
    rw [hclash] at hfair
    cases hfair

theorem exists_propagate (hmodels : Models val x.clauses.toList) (hf : f.Agrees val) (k : Nat)
    (queue : List Code) : ∃ found, x.propagate k f queue = some found ∧ found.Agrees val := by
  fun_induction propagate x k f queue with
  | case1 f queue => exact ⟨_, rfl, hf⟩
  | case2 k f => exact ⟨_, rfl, hf⟩
  | case3 k f c queue numbers hnone =>
    obtain ⟨r, hr, _⟩ := exists_visit hmodels hf numbers numbers.size queue
    cases hnone.symm.trans hr
  | case4 k f c queue numbers f' queue' hvisit ih =>
    obtain ⟨r, hr, hagrees⟩ := exists_visit hmodels hf numbers numbers.size queue
    cases hvisit.symm.trans hr
    exact ih hagrees

/-- The search has come to the last `k` variables, and has not missed a model. -/
structure Stage (x : Index) (val : Nat → Bool) (k : Nat) (f : Falses) : Prop where
  size : f.bytes.size = 2 * x.count
  agrees : f.Agrees val
  knows : ∀ u < x.count - k, f.Knows u

/-- Assuming what is true of the next variable leads to the next stage. -/
theorem Stage.exists_assume (h : x.Stage val (k + 1) f) (hk : k + 1 ≤ x.count)
    (hmodels : Models val x.clauses.toList) {c : Code} (hvar : c.var = x.count - (k + 1))
    (hc : c.neg = .positive c.var ∨ c.neg = .negative c.var) (htrue : c.holds val = true) :
    ∃ f', x.assume f c = some f' ∧ x.Stage val k f' := by
  obtain ⟨f', hf', hagrees⟩ := exists_propagate hmodels (h.agrees.add_neg htrue) (x.count + 1) [c]
  have hgrows : (f.add c.neg).Grows f' := propagate_grows hf'
  have hall := (f.grows_add c.neg).trans hgrows
  refine ⟨f', hf', hall.size.trans h.size, hagrees, fun u hu => ?_⟩
  by_cases hlt : u < x.count - (k + 1)
  · exact hall.knows (h.knows u hlt)
  · have he : u = c.var := by omega
    have hsize : c.neg < f.bytes.size := by
      rw [h.size]
      rcases hc with hc | hc
      · rw [hc]
        show 2 * c.var < 2 * x.count
        omega
      · rw [hc]
        show 2 * c.var + 1 < 2 * x.count
        omega
    have hknown := hgrows.has _ (Falses.has_add_self hsize)
    rw [he]
    rcases hc with hc | hc
    · exact Or.inl (hc ▸ hknown)
    · exact Or.inr (hc ▸ hknown)

/-- What is found below a false variable comes before every model in which it is true. -/
theorem Stage.precedes (h : x.Stage val (k + 1) f) (hval : val (x.count - (k + 1)) = true)
    (hgrows : f.Grows found) (hfound : found.has (.positive (x.count - (k + 1))) = true) :
    Precedes x.count found.value val := by
  intro w _ hbefore hw
  rcases Nat.lt_trichotomy w (x.count - (k + 1)) with hlt | rfl | hlt
  · rcases h.knows w hlt with hknown | hknown
    · rw [Falses.value_eq_of_positive (hgrows.has _ hknown)] at hw
      cases hw
    · exact h.agrees.eq_true hknown
  · exact hval
  · have he := hbefore _ hlt
    rw [hval, Falses.value_eq_of_positive hfound] at he
    cases he

/-- A variable that has a value already leads to the next stage. -/
theorem Stage.skip (h : x.Stage val (k + 1) f) (hk : k + 1 ≤ x.count)
    (hknown : f.Knows (x.count - (k + 1))) : x.Stage val k f := by
  refine ⟨h.size, h.agrees, fun u hu => ?_⟩
  by_cases hlt : u < x.count - (k + 1)
  · exact h.knows u hlt
  · have he : u = x.count - (k + 1) := by omega
    exact he ▸ hknown

/-- At the last stage all variables have the values of the model. -/
theorem Stage.branch_zero (h : x.Stage val 0 f) (hmodels : Models val x.clauses.toList)
    (hbelow : ∀ c ∈ x.clauses.toList, ∀ l ∈ c, Code.var l < x.count) :
    x.branch 0 f = some f ∧ Precedes x.count f.value val := by
  have hvalue : ∀ v < x.count, f.value v = val v := fun v hv => h.agrees.value_eq (h.knows v hv)
  have hall : (x.clauses.all fun c => c.any (Code.holds f.value)) = true := by
    rw [Array.all_eq_true_iff_forall_mem]
    intro c hc
    obtain ⟨l, hl, htrue⟩ := hmodels c (Array.mem_def.mp hc)
    refine List.any_eq_true.mpr ⟨l, hl, ?_⟩
    rwa [Code.holds, hvalue _ (hbelow c (Array.mem_def.mp hc) l hl)]
  refine ⟨by rw [branch, if_pos hall], fun v hv _ htrue => ?_⟩
  rwa [← hvalue v hv]

theorem exists_branch (hmodels : Models val x.clauses.toList)
    (hbelow : ∀ c ∈ x.clauses.toList, ∀ l ∈ c, Code.var l < x.count) (hk : k ≤ x.count)
    (h : x.Stage val k f) :
    ∃ found, x.branch k f = some found ∧ Precedes x.count found.value val := by
  induction k generalizing f with
  | zero => exact ⟨f, h.branch_zero hmodels hbelow⟩
  | succ k ih =>
    have hnext {f' : Falses} (hf' : x.Stage val k f') := ih (Nat.le_of_succ_le hk) hf'
    rw [branch]
    split
    next hknown =>
      rw [Bool.or_eq_true] at hknown
      exact hnext (h.skip hk hknown)
    next =>
      cases hval : val (x.count - (k + 1)) with
      | false =>
        obtain ⟨f', hf', hstage⟩ := h.exists_assume hk hmodels (Code.var_negative _)
          (Or.inl (by simp)) (by simp [hval])
        obtain ⟨found, hfound, hprecedes⟩ := hnext hstage
        rw [hf', Option.bind_some, hfound]
        exact ⟨found, rfl, hprecedes⟩
      | true =>
        split
        next found hfound =>
          obtain ⟨f', hf', hbranch⟩ := Option.bind_eq_some_iff.mp hfound
          have hgrows := (assume_grows hf').trans (branch_grows hbranch)
          rw [Code.neg_negative] at hgrows
          refine ⟨found, rfl, h.precedes hval ((f.grows_add _).trans hgrows) ?_⟩
          apply hgrows.has
          apply Falses.has_add_self
          rw [h.size]
          show 2 * (x.count - (k + 1)) < 2 * x.count
          omega
        next =>
          obtain ⟨f', hf', hstage⟩ := h.exists_assume hk hmodels (Code.var_positive _)
            (Or.inr (by simp)) (by simp [hval])
          rw [hf', Option.bind_some]
          exact hnext hstage

theorem models_of_least? (h : x.least? = some found) : Models found.value x.clauses.toList := by
  rw [least?] at h
  split at h
  next => cases h
  next f queue _ =>
    obtain ⟨f', _, hfound⟩ := Option.bind_eq_some_iff.mp h
    exact models_of_branch hfound

/-- Clauses with a model have a first one, and this is what is found. -/
theorem exists_least? (hmodels : Models val x.clauses.toList)
    (hbelow : ∀ c ∈ x.clauses.toList, ∀ l ∈ c, Code.var l < x.count) :
    ∃ found, x.least? = some found ∧ Precedes x.count found.value val := by
  obtain ⟨⟨f, queue⟩, hvisit, hf⟩ := exists_visit hmodels (Falses.agrees_start (2 * x.count) val)
    (Array.range x.clauses.size) x.clauses.size []
  obtain ⟨f', hf', hagrees⟩ := exists_propagate hmodels hf (x.count + 1) queue
  have hgrows := (visit_grows hvisit).trans (propagate_grows hf')
  have hstage : x.Stage val x.count f' := by
    refine ⟨?_, hagrees, fun u hu => by omega⟩
    rw [hgrows.size]
    exact Array.size_replicate
  rw [least?, hvisit]
  dsimp only
  rw [hf', Option.bind_some]
  exact exists_branch hmodels hbelow (Nat.le_refl _) hstage

end Index

end AgentPaths.Sat
