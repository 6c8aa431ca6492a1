import AgentPaths.Token
import Mathlib.Logic.Relation

/-!
Tokens that are set stay set. No action takes a flag from a token, and none makes a flag clear
again; so whatever is done with the tokens, one that has been seen set is set whenever it is looked
at later. A token and its clone cannot be told apart.
-/
namespace AgentPaths.Tokens

variable {s s' t : Tokens} {i j : Nat}

def Step (s s' : Tokens) : Prop := ∃ a, s.perform a = .ok s'

/-- One state comes after another, whatever is done in between. -/
def Later : Tokens → Tokens → Prop := Relation.ReflTransGen Step

theorem owners_of_owner {k : Fin s.flags.length} (h : s.owner i = .ok k) :
    s.owners[i]? = some k.val := by
  unfold owner at h
  split at h
  next hk =>
    cases h
    exact hk
  next => cases h

/-- What is seen of a token is whether its flag is set. -/
theorem isCancelled_eq (s : Tokens) (i : Nat) : s.isCancelled i = match s.owners[i]? with
    | some k => .ok (s.flags.getD k .clear).isSet
    | none => .error .entryMissing := by
  unfold isCancelled flag owner
  split
  next k h =>
    have hk : k < s.flags.length := s.owned k (List.mem_of_getElem? h)
    simp [Except.map, h, hk]
  next h => simp [Except.map, h]

theorem isCancelled_eq_ok {b : Bool} : s.isCancelled i = .ok b ↔
    ∃ (k : Nat) (f : Flag), s.owners[i]? = some k ∧ s.flags[k]? = some f ∧ f.isSet = b := by
  rw [isCancelled_eq]
  split
  next k h =>
    have hk : k < s.flags.length := s.owned k (List.mem_of_getElem? h)
    simp [h, hk]
  next h => simp [h]

theorem isCancelled_congr (h : s.owners[i]? = s.owners[j]?) :
    s.isCancelled i = s.isCancelled j := by
  rw [isCancelled_eq, isCancelled_eq, h]

/-- Tokens keep their flags, and flags that are set stay set. -/
structure Grows (s s' : Tokens) : Prop where
  owners : ∀ i k : Nat, s.owners[i]? = some k → s'.owners[i]? = some k
  flags : ∀ (k : Nat) (f : Flag), s.flags[k]? = some f →
    ∃ f', s'.flags[k]? = some f' ∧ (f.isSet = true → f'.isSet = true)

theorem grows_mapFlags {g : Nat → Flag → Flag} {now : Nat}
    (hset : ∀ k f, f.isSet = true → (g k f).isSet = true) : s.Grows (s.mapFlags g now) := by
  constructor
  · intro i k hk
    exact hk
  · intro k f hf
    exact ⟨g k f, by simp [mapFlags, hf], hset k f⟩

theorem exists_of_map_eq_ok {ε α β : Type} {f : α → β} {x : Except ε α} {b : β}
    (h : x.map f = .ok b) : ∃ a, x = .ok a ∧ f a = b := by
  cases x with
  | error e => cases h
  | ok a => exact ⟨a, rfl, Except.ok.inj h⟩

theorem grows_modify {g : Flag → Flag} (hset : ∀ f, f.isSet = true → (g f).isSet = true)
    (h : s.modify i g = .ok s') : s.Grows s' := by
  obtain ⟨k, _, rfl⟩ := exists_of_map_eq_ok h
  apply grows_mapFlags
  intro x f hf
  split
  next => exact hset f hf
  next => exact hf

theorem grows_append {owners : List Nat} {flags : List Flag}
    (howners : s'.owners = s.owners ++ owners)
    (hflags : s'.flags = s.flags ++ flags) : s.Grows s' := by
  constructor
  · intro i k hk
    rw [howners, List.getElem?_append_left (List.getElem?_eq_some_iff.mp hk).1, hk]
  · intro k f hf
    have hkept : s'.flags[k]? = some f := by
      rw [hflags, List.getElem?_append_left (List.getElem?_eq_some_iff.mp hf).1, hf]
    exact ⟨f, hkept, id⟩

theorem Step.grows (h : s.Step s') : s.Grows s' := by
  obtain ⟨a, ha⟩ := h
  cases a with
  | create =>
    cases ha
    exact grows_append rfl rfl
  | clone i =>
    obtain ⟨k, _, rfl⟩ := exists_of_map_eq_ok ha
    exact grows_append rfl (List.append_nil _).symm
  | cancel i => exact grows_modify (fun _ _ => rfl) ha
  | cancelAfter i budget =>
    apply grows_modify _ ha
    intro f hf
    exact hf
  | wait i limit =>
    obtain ⟨f, _, rfl⟩ := exists_of_map_eq_ok ha
    exact grows_mapFlags fun k f hf => by simp [Flag.later, hf]

theorem Later.grows (h : s.Later s') : s.Grows s' := by
  induction h with
  | refl => exact ⟨fun _ _ h => h, fun _ f h => ⟨f, h, id⟩⟩
  | tail _ hstep ih =>
    have hgrows := hstep.grows
    constructor
    · intro i k hk
      exact hgrows.owners i k (ih.owners i k hk)
    · intro k f hf
      obtain ⟨f', hf', hset⟩ := ih.flags k f hf
      obtain ⟨f'', hf'', hset'⟩ := hgrows.flags k f' hf'
      exact ⟨f'', hf'', fun h => hset' (hset h)⟩

theorem later_of_le {history : Nat → Tokens} (h : ∀ k, (history k).Later (history (k + 1)))
    (hij : i ≤ j) : (history i).Later (history j) := by
  induction hij with
  | refl => exact .refl
  | step _ ih => exact ih.trans (h _)

/-- A token can be looked at as long as it likes, and once it is set it stays so. -/
theorem Later.exists_isCancelled (h : s.Later s') {b : Bool} (hb : s.isCancelled i = .ok b) :
    ∃ b', s'.isCancelled i = .ok b' ∧ (b = true → b' = true) := by
  obtain ⟨k, f, hk, hf, rfl⟩ := isCancelled_eq_ok.mp hb
  obtain ⟨f', hf', hset⟩ := h.grows.flags k f hf
  exact ⟨f'.isSet, isCancelled_eq_ok.mpr ⟨k, f', h.grows.owners i k hk, hf', rfl⟩, hset⟩

/-- Whatever is done after a token has been cloned, it and the clone look the same. -/
theorem isCancelled_clone (hclone : s.clone i = .ok t) (h : t.Later s') :
    s'.isCancelled s.owners.length = s'.isCancelled i := by
  obtain ⟨k, hk, rfl⟩ := exists_of_map_eq_ok hclone
  have hi := owners_of_owner hk
  have hlt := (List.getElem?_eq_some_iff.mp hi).1
  apply isCancelled_congr
  rw [h.grows.owners s.owners.length k (by simp),
    h.grows.owners i k ((List.getElem?_append_left hlt).trans hi)]

/-- A request sets a token at once. -/
theorem isCancelled_cancel (h : s.cancel i = .ok t) : t.isCancelled i = .ok true := by
  obtain ⟨k, hk, rfl⟩ := exists_of_map_eq_ok h
  rw [isCancelled_eq_ok]
  use k, { s.flags.get k with isSet := true }, owners_of_owner hk
  simp [mapFlags]

end AgentPaths.Tokens
