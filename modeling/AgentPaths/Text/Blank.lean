import AgentPaths.Text.Pieces

/-!
White space, and what it separates. `trim` and `words` only ever drop blanks, so a text without
blanks is its own trimmed form and, if it is not empty, its only word.
-/
namespace AgentPaths.Text

/-- The characters with the Unicode property `White_Space`. -/
def isBlank (c : Char) : Bool :=
  let n := c.toNat
  (9 ≤ n && n ≤ 13) || n == 0x20 || n == 0x85 || n == 0xA0 || n == 0x1680 ||
    (0x2000 ≤ n && n ≤ 0x200A) || n == 0x2028 || n == 0x2029 || n == 0x202F || n == 0x205F ||
    n == 0x3000

/-- A text without the blanks at its two ends. -/
def trim (s : List Char) : List Char :=
  ((s.dropWhile isBlank).reverse.dropWhile isBlank).reverse

/-- The longest stretches of a text that hold no blank, in order: cut behind every blank, a piece
has no other blank than its last. -/
def words (s : List Char) : List (List Char) :=
  ((pieces isBlank s).map (List.filter (!isBlank ·))).filter (!·.isEmpty)

theorem dropWhile_isBlank_of_none {s : List Char} (h : ∀ c ∈ s, isBlank c = false) :
    s.dropWhile isBlank = s := by
  cases s with
  | nil => rfl
  | cons c r => rw [List.dropWhile_cons_of_neg (by simp [h c List.mem_cons_self])]

theorem trim_of_none {s : List Char} (h : ∀ c ∈ s, isBlank c = false) : trim s = s := by
  have hrev : ∀ c ∈ s.reverse, isBlank c = false := fun c hc => h c (List.mem_reverse.mp hc)
  rw [trim, dropWhile_isBlank_of_none h, dropWhile_isBlank_of_none hrev, List.reverse_reverse]

theorem dropWhile_isBlank_append {w : List Char} (hne : w ≠ []) (hw : ∀ c ∈ w, isBlank c = false)
    (s : List Char) : (w ++ s).dropWhile isBlank = w ++ s := by
  obtain ⟨c, r, rfl⟩ := List.exists_cons_of_ne_nil hne
  exact List.dropWhile_cons_of_neg (by simp [hw c List.mem_cons_self])

/-- A text that begins and ends with words has no blanks to trim. -/
theorem trim_append {w v : List Char} (hne : w ≠ []) (hw : ∀ c ∈ w, isBlank c = false)
    (hne' : v ≠ []) (hv : ∀ c ∈ v, isBlank c = false) (s : List Char) :
    trim (w ++ s ++ v) = w ++ s ++ v := by
  have hrev : ∀ c ∈ v.reverse, isBlank c = false := fun c hc => hv c (List.mem_reverse.mp hc)
  rw [trim, List.append_assoc, dropWhile_isBlank_append hne hw, ← List.append_assoc,
    List.reverse_append, dropWhile_isBlank_append (by simpa using hne') hrev,
    ← List.reverse_append, List.reverse_reverse]

theorem words_append_cons {w : List Char} {b : Char} (hne : w ≠ [])
    (hw : ∀ c ∈ w, isBlank c = false) (hb : isBlank b = true) (s : List Char) :
    words (w ++ b :: s) = w :: words s := by
  have hfilter : (w ++ [b]).filter (!isBlank ·) = w := by
    rw [List.filter_append, List.filter_eq_self.mpr fun c hc => by simp [hw c hc]]
    simp [hb]
  rw [words, pieces_append_cons hw hb, List.map_cons, hfilter, List.filter_cons_of_pos, ← words]
  simp [hne]

theorem words_of_none {w : List Char} (hne : w ≠ []) (hw : ∀ c ∈ w, isBlank c = false) :
    words w = [w] := by
  have hself : w.filter (!isBlank ·) = w :=
    List.filter_eq_self.mpr fun c hc => by simp [hw c hc]
  simp [words, pieces_of_none hne hw, hself, hne]

end AgentPaths.Text
