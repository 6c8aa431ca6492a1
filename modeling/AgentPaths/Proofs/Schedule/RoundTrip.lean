import AgentPaths.Proofs.Schedule.Reading

/-!
Schedules and their texts. Empty paths at the end of a schedule are blank lines at the end of its
text, which mean nothing; so reading what was written gives the schedule without them, and a
schedule that was read has none.
-/
namespace AgentPaths.Schedule

open Text

/-- The paths `kept` are all that is left of `paths` without the empty ones at their end. -/
structure Trimmed (paths kept : List (List Nat)) : Prop where
  rest : ∃ blanks, paths = kept ++ List.replicate blanks []
  last : kept.getLast? ≠ some []

variable {paths kept : List (List Nat)} {file : Source} {s : Schedule}

theorem dropTrailing_append_replicate (paths : List (List Nat)) (blanks : Nat) :
    dropTrailing (paths ++ List.replicate blanks []) = dropTrailing paths := by
  induction blanks with
  | zero => rw [List.replicate_zero, List.append_nil]
  | succ blanks ih =>
    rw [List.replicate_succ', ← List.append_assoc, dropTrailing_concat_nil, ih]

theorem dropTrailing_eq_self_iff : dropTrailing paths = paths ↔ paths.getLast? ≠ some [] := by
  constructor
  · intro h
    rw [← h]
    exact getLast?_dropTrailing_ne paths
  · intro h
    induction paths using List.reverseRecOn with
    | nil => rfl
    | append_singleton before path _ =>
      rw [List.getLast?_concat] at h
      exact dropTrailing_concat fun he => h (congrArg some he)

theorem trimmed_dropTrailing (paths : List (List Nat)) : Trimmed paths (dropTrailing paths) := by
  refine ⟨?_, getLast?_dropTrailing_ne paths⟩
  induction paths using List.reverseRecOn with
  | nil => exact ⟨0, rfl⟩
  | append_singleton before path ih =>
    by_cases hpath : path = []
    · obtain ⟨blanks, hblanks⟩ := ih
      refine ⟨blanks + 1, ?_⟩
      rw [hpath, dropTrailing_concat_nil, List.replicate_succ', ← List.append_assoc, ← hblanks]
    · exact ⟨0, by rw [dropTrailing_concat hpath, List.replicate_zero, List.append_nil]⟩

/-- Nothing else is left than what `dropTrailing` leaves. -/
theorem trimmed_iff : Trimmed paths kept ↔ dropTrailing paths = kept := by
  constructor
  · rintro ⟨⟨blanks, rfl⟩, hlast⟩
    rw [dropTrailing_append_replicate, dropTrailing_eq_self_iff.mpr hlast]
  · rintro rfl
    exact trimmed_dropTrailing paths

theorem lt_wordBound_of_row {line : List Char} {path : List Nat} (h : Row line path) :
    ∀ n ∈ path, n < wordBound := by
  unfold Row at h
  generalize (line.splitOnP isBlank).filter (!·.isEmpty) = tokens at h
  induction h with
  | nil => simp
  | cons hn _ ih =>
    obtain ⟨_, _, _, _, _, hlt⟩ := hn
    exact List.forall_mem_cons.mpr ⟨hlt, ih⟩

/-- The nodes that are read from a file fit into words. -/
theorem lt_wordBound_of_read (h : read file = .ok s) :
    ∀ path ∈ s.paths, ∀ n ∈ path, n < wordBound := by
  rw [read, bind_eq_ok] at h
  obtain ⟨all, hall, hs⟩ := h
  cases hs
  intro path hpath
  have hmem : path ∈ all := (List.rdropWhile_prefix _ _).subset hpath
  have hread : (.ok path : Except ReadError _) ∈ all.map .ok := List.mem_map_of_mem hmem
  rw [← mapM_eq_ok_iff.mp hall, List.mem_map] at hread
  obtain ⟨⟨line, index⟩, _, hline⟩ := hread
  cases line with
  | none => cases hline
  | some line => exact lt_wordBound_of_row (readPath_eq_ok.mp hline)

theorem read_text_iff {r : Schedule} (h : ∀ path ∈ s.paths, ∀ n ∈ path, n < wordBound) :
    read (.ofUTF8 s.text) = .ok r ↔ Trimmed s.paths r.paths := by
  rw [read_text h, trimmed_iff]
  cases r
  simp

theorem read_text_eq_self_iff (h : ∀ path ∈ s.paths, ∀ n ∈ path, n < wordBound) :
    read (.ofUTF8 s.text) = .ok s ↔ s.paths.getLast? ≠ some [] := by
  rw [read_text_iff h, trimmed_iff, dropTrailing_eq_self_iff]

/-- A schedule whose nodes are words is read from its text without the empty paths at its end, hence
as it is just if it does not end with one. Nothing that is read does, whatever the file, and its
text is read as the same schedule. -/
theorem trimmed_round_trip :
    (∀ s : Schedule, (∀ path ∈ s.paths, ∀ n ∈ path, n < wordBound) →
      (∃ r, read (.ofUTF8 s.text) = .ok r) ∧
      (∀ r, read (.ofUTF8 s.text) = .ok r ↔ Trimmed s.paths r.paths) ∧
      (read (.ofUTF8 s.text) = .ok s ↔
        s.paths = [] ∨ ∃ path, s.paths.getLast? = some path ∧ path ≠ [])) ∧
    ∀ (file : Source) (s : Schedule), read file = .ok s →
      read (.ofUTF8 s.text) = .ok s ∧ s.paths.getLast? ≠ some [] := by
  refine ⟨fun s hs => ⟨⟨_, read_text hs⟩, fun r => read_text_iff hs, ?_⟩, fun file s hread => ?_⟩
  · rw [read_text_eq_self_iff hs, ← List.getLast?_eq_none_iff]
    cases s.paths.getLast? <;> simp
  · have hlast := getLast?_ne_of_read hread
    exact ⟨(read_text_eq_self_iff (lt_wordBound_of_read hread)).mpr hlast, hlast⟩

/-- The last of three agents has an empty path, as the first one has; then a file with blank lines
at its end. -/
theorem trimmed_round_trip_blank :
    read (.ofUTF8 (⟨[[], [0, 1], []]⟩ : Schedule).text) = .ok ⟨[[], [0, 1]]⟩ ∧
    read (.ofUTF8 (⟨[[], [0, 1]]⟩ : Schedule).text) = .ok ⟨[[], [0, 1]]⟩ := by
  have htrimmed : Trimmed [[], [0, 1], []] [[], [0, 1]] := ⟨⟨1, rfl⟩, by decide⟩
  have hread : read (.ofText "\n0 1\n \n\n".toList) = .ok ⟨[[], [0, 1]]⟩ := by rfl
  exact ⟨((trimmed_round_trip.1 ⟨[[], [0, 1], []]⟩ (by decide)).2.1 _).mpr htrimmed,
    (trimmed_round_trip.2 _ _ hread).1⟩

end AgentPaths.Schedule
