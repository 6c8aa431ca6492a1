import AgentPaths.Proofs.Problem.Grammar
import AgentPaths.Proofs.Schedule.Decoding
import AgentPaths.Schedule.Text

/-!
The text of a schedule, read and written. The lines of a text up to the last one that is not blank
are the paths, one each; so what is written is read again, without the empty paths at its end.
-/
namespace AgentPaths.Schedule

open Text

/-- The lines of a text up to the last one that is not blank. -/
def keptLines (text : List Char) : List (List Char) :=
  (text.splitOn '\n').rdropWhile (·.all isBlank)

/-- A line of blanks is a row of no numbers. -/
theorem row_nil_iff {line : List Char} : Row line [] ↔ line.all isBlank = true := by
  rw [Row, ← words_eq_splitOnP, List.forall₂_nil_right_iff, words_eq_nil, List.all_eq_true]

theorem all_isBlank_of_row {line : List Char} {path : List Nat} (h : Row line path) :
    line.all isBlank = path.isEmpty := by
  cases path with
  | nil => exact row_nil_iff.mp h
  | cons n rest =>
    apply Bool.eq_false_iff.mpr
    intro hblank
    have hlength := h.length_eq
    rw [List.forall₂_nil_right_iff.mp (row_nil_iff.mpr hblank)] at hlength
    cases hlength

/-- Empty paths at the end come of blank lines at the end. -/
theorem forall₂_row_rdropWhile {ls : List (List Char)} {paths : List (List Nat)} :
    List.Forall₂ Row (ls.rdropWhile (·.all isBlank)) paths ↔
      ∃ all, List.Forall₂ Row ls all ∧ dropTrailing all = paths :=
  forall₂_rdropWhile (R := Row) (fun _ _ => all_isBlank_of_row) fun _ h => ⟨[], row_nil_iff.mpr h⟩

theorem words_rdropWhile (ls : List (List Char)) :
    (ls.rdropWhile (·.all isBlank)).map words = (ls.map words).rdropWhile List.isEmpty := by
  have hempty : List.isEmpty ∘ words = (·.all isBlank) := by
    funext l
    rw [Function.comp_apply, Bool.eq_iff_iff, List.isEmpty_iff, words_eq_nil, List.all_eq_true]
  rw [List.rdropWhile, List.rdropWhile, ← List.map_reverse, List.dropWhile_map, hempty,
    List.map_reverse]

/-- The lines of a source have the words of the lines between its line feeds, of which there may be
one more at the end. -/
theorem words_textLines (text : List Char) :
    ((textLines text).rdropWhile (·.all isBlank)).map words = (keptLines text).map words := by
  rw [keptLines, words_rdropWhile, words_rdropWhile]
  apply rdropWhile_map_pieces _ rfl
  intro l c hc
  rw [beq_iff_eq.mp hc, words_concat (by decide)]

theorem forall₂_row_iff {ls : List (List Char)} {paths : List (List Nat)} :
    List.Forall₂ Row ls paths ↔ List.Forall₂ (List.Forall₂ Numeral) (ls.map words) paths := by
  simp only [List.forall₂_map_left_iff, words_eq_splitOnP]
  rfl

theorem readPath_eq_ok {index : Nat} {line : List Char} {path : List Nat} :
    readPath index (some line) = .ok path ↔ Row line path := by
  rw [Row, ← words_eq_splitOnP, ← words_chomp, words_eq_splitOnP, ← numbers?_eq_some, readPath]
  cases numbers? (chomp line) <;> simp

theorem mapM_readPath_eq_ok {ls : List (List Char)} {index : Nat} {paths : List (List Nat)} :
    ((ls.map some).zipIdx index).mapM (fun (line, i) => readPath i line) = .ok paths ↔
      List.Forall₂ Row ls paths := by
  rw [mapM_eq_ok_iff]
  induction ls generalizing index paths with
  | nil => cases paths <;> simp
  | cons l ls ih =>
    cases paths with
    | nil => simp
    | cons path paths =>
      simp only [List.map_cons, List.zipIdx_cons, List.cons.injEq, List.forall₂_cons, ih,
        readPath_eq_ok]

/-- A text is read exactly if its lines up to the last one that is not blank are rows of numbers,
and then these rows are the paths. -/
theorem read_eq_ok {text : List Char} {s : Schedule} :
    read (.ofUTF8 text) = .ok s ↔ List.Forall₂ Row (keptLines text) s.paths := by
  rw [forall₂_row_iff, ← words_textLines, ← forall₂_row_iff, forall₂_row_rdropWhile,
    ofUTF8_eq_ofText, read, bind_eq_ok]
  simp only [Source.ofText, mapM_readPath_eq_ok, pure, Except.pure, Except.ok.injEq]
  constructor
  · intro h
    obtain ⟨all, hall, rfl⟩ := h
    exact ⟨all, hall, rfl⟩
  · intro h
    obtain ⟨all, hall, hpaths⟩ := h
    exact ⟨all, hall, by rw [hpaths]⟩

/-- Blank lines before the last path are paths. -/
example : read (.ofText "\n0 1\n \n\n".toList) = .ok ⟨[[], [0, 1]]⟩ := by rfl

theorem getLast?_dropTrailing_ne (paths : List (List Nat)) :
    (dropTrailing paths).getLast? ≠ some [] := by
  intro hlast
  obtain ⟨hne, hnil⟩ := List.mem_getLast?_eq_getLast hlast
  have hnot : ¬(List.getLast _ hne).isEmpty = true := List.rdropWhile_last_not List.isEmpty _ hne
  rw [← hnil] at hnot
  exact hnot rfl

/-- An empty path is not the last one that is read. -/
theorem getLast?_ne_of_read {file : Source} {s : Schedule} (h : read file = .ok s) :
    s.paths.getLast? ≠ some [] := by
  rw [read, bind_eq_ok] at h
  obtain ⟨all, _, hs⟩ := h
  cases hs
  exact getLast?_dropTrailing_ne all

/-- The words of a written path are its numbers. -/
theorem words_pathLine (path : List Nat) : words (pathLine path) = path.map decimal := by
  unfold pathLine
  induction path with
  | nil => rfl
  | cons n rest ih =>
    have hne := decimal_ne_nil n
    have hn : ∀ c ∈ decimal n, isBlank c = false := fun _ => isBlank_of_mem_decimal
    cases rest with
    | nil => simpa using words_of_none hne hn
    | cons m rest =>
      rw [List.map_cons, List.map_cons, List.intercalate_cons_cons, List.append_assoc,
        List.singleton_append, words_append_cons hne hn (by decide), ← List.map_cons, ih]

theorem lineFeed_notMem_pathLine (path : List Nat) : '\n' ∉ pathLine path := by
  unfold pathLine
  induction path with
  | nil => simp
  | cons n rest ih =>
    cases rest with
    | nil => simpa using lineFeed_notMem_decimal n
    | cons m rest =>
      rw [List.map_cons, List.map_cons, List.intercalate_cons_cons]
      simp [lineFeed_notMem_decimal, ← List.map_cons, ih]

theorem row_pathLine {path : List Nat} (h : ∀ n ∈ path, n < wordBound) :
    Row (pathLine path) path := by
  rw [Row, ← words_eq_splitOnP, words_pathLine, List.forall₂_map_left_iff, List.forall₂_same]
  exact fun n hn => number?_eq_some.mp (number?_decimal (h n hn))

theorem splitOn_unlines {ls : List (List Char)} (h : ∀ l ∈ ls, '\n' ∉ l) :
    (unlines ls).splitOn '\n' = ls ++ [[]] := by
  induction ls with
  | nil => rfl
  | cons l ls ih =>
    obtain ⟨hl, hls⟩ := List.forall_mem_cons.mp h
    have hfree : ∀ c ∈ l, (c == '\n') = false := fun c hc =>
      beq_eq_false_iff_ne.mpr fun he => hl (he ▸ hc)
    rw [unlines, List.flatMap_cons, List.append_assoc, List.singleton_append,
      List.splitOn_eq_splitOnP, List.splitOnP_append_cons_of_forall_mem hfree _ (by decide),
      ← List.splitOn_eq_splitOnP, ← unlines, ih hls, List.cons_append]

/-- What is written is read again, without the empty paths at its end. -/
theorem read_text {s : Schedule} (h : ∀ path ∈ s.paths, ∀ n ∈ path, n < wordBound) :
    read (.ofUTF8 s.text) = .ok ⟨dropTrailing s.paths⟩ := by
  have hlines : ∀ l ∈ s.paths.map pathLine, '\n' ∉ l := by
    simp [lineFeed_notMem_pathLine]
  rw [read_eq_ok, text, keptLines, splitOn_unlines hlines, List.rdropWhile_concat_pos _ _ _ rfl,
    forall₂_row_rdropWhile]
  refine ⟨s.paths, ?_, rfl⟩
  rw [List.forall₂_map_left_iff, List.forall₂_same]
  exact fun path hpath => row_pathLine (h path hpath)

end AgentPaths.Schedule
