import AgentPaths.Cli.Directory
import AgentPaths.Proofs.Text.Reading

/-!
Files in a directory. What has been stored where a path leads to a file is found there again: a new
file makes no directory of anything that was none, so that the path still leads to it.
-/
namespace AgentPaths.Cli.Directory

open Text

variable {d d' : Directory} {l l' : Location} {path : Path} {text : List Char}

/-- A path leads to the same place where there are more directories. -/
theorem follow_mono (h : ∀ l, d.isDirectory l = true → d'.isDirectory l = true)
    {names : List (List Char)} (hfollow : d.follow l names = some l') :
    d'.follow l names = some l' := by
  induction names generalizing l with
  | nil => exact hfollow
  | cons name rest ih =>
    rw [follow] at hfollow ⊢
    split at hfollow
    next => cases hfollow
    next hshort =>
      split at hfollow
      next => cases hfollow
      next hopen =>
        rw [if_neg hshort, if_neg, ih hfollow]
        intro hclosed
        refine hopen ⟨hclosed.1, Bool.eq_false_iff.mpr fun hdirectory => ?_⟩
        rw [h _ hdirectory] at hclosed
        cases hclosed.2

theorem isDirectory_put_of_isDirectory (h : d.isDirectory l' = true) :
    (d.put l text).isDirectory l' = true := by
  unfold isDirectory at h ⊢
  rw [Bool.or_eq_true] at h ⊢
  rcases h with hsystem | hfile
  · exact Or.inl hsystem
  · right
    obtain ⟨f, hf, habove⟩ := List.any_eq_true.mp hfile
    by_cases he : f.1 = l
    · exact List.any_eq_true.mpr ⟨(l, text), by simp [put], by rwa [he] at habove⟩
    · exact List.any_eq_true.mpr ⟨f, by simp [put, hf, he], habove⟩

theorem isDirectory_put_self (h : d.isDirectory l = false) :
    (d.put l text).isDirectory l = false := by
  unfold isDirectory at h ⊢
  rw [Bool.or_eq_false_iff] at h ⊢
  obtain ⟨hsystem, hfiles⟩ := h
  rw [List.any_eq_false] at hfiles
  refine ⟨hsystem, ?_⟩
  apply List.any_eq_false.mpr
  intro f hf
  rcases List.mem_append.mp hf with hf | hf
  · exact hfiles f (List.mem_of_mem_filter hf)
  · simp [List.mem_singleton.mp hf]

theorem target?_eq_file : d.target? path = some (.file l) ↔
    ¬(path = [] ∨ pathLimit < bytes path) ∧ d.follow (d.system.origin path) (names path) = some l ∧
      d.isDirectory l = false ∧ d.device? l = none := by
  unfold target?
  split
  next hpath => simp [hpath]
  next hpath =>
    rw [and_iff_right hpath, Option.map_eq_some_iff]
    constructor
    · intro h
      obtain ⟨found, hfollow, hfile⟩ := h
      split at hfile
      next => cases hfile
      next hdirectory =>
        split at hfile
        next => cases hfile
        next hdevice =>
          cases hfile
          exact ⟨hfollow, Bool.eq_false_iff.mpr hdirectory, hdevice⟩
    · intro h
      obtain ⟨hfollow, hdirectory, hdevice⟩ := h
      exact ⟨l, hfollow, by simp [hdirectory, hdevice]⟩

/-- A path that leads to a file still does when something is stored there. -/
theorem target?_put (h : d.target? path = some (.file l)) :
    (d.put l text).target? path = some (.file l) := by
  obtain ⟨hpath, hfollow, hfile, hdevice⟩ := target?_eq_file.mp h
  exact target?_eq_file.mpr ⟨hpath, follow_mono (fun _ => isDirectory_put_of_isDirectory) hfollow,
    isDirectory_put_self hfile, hdevice⟩

/-- What is stored in a file is found there. -/
theorem load?_put (h : d.target? path = some (.file l)) :
    (d.put l text).load? path = some (.ofText text) := by
  have hlookup : (d.put l text).files.lookup l = some text := by
    have hothers : (d.files.filter (·.1 != l)).lookup l = none :=
      List.lookup_eq_none_iff.mpr fun f hf => by
        rw [bne_comm]
        exact (List.mem_filter.mp hf).2
    rw [put, List.lookup_append, hothers]
    simp
  rw [load?, target?_put h]
  dsimp only
  rw [hlookup]
  rfl

end AgentPaths.Cli.Directory
