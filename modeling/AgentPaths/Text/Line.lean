import AgentPaths.Text.Pieces

/-!
Files as lists of lines. A line keeps its line feed, so that the lines of a text put together are
the text again; only the last one may lack it. A line whose bytes are not text stays in the list as
`none`, because it is a fault only for a reader that comes to it.
-/
namespace AgentPaths.Text

/-- The lines of a file, from the first to the last. -/
abbrev Source := List (Option (List Char))

def textLines (s : List Char) : List (List Char) := pieces (· == '\n') s

def Source.ofText (s : List Char) : Source := (textLines s).map some

/-- The lines of a file that holds any bytes; each line is decoded for itself. -/
def Source.ofBytes (bytes : ByteArray) : Source :=
  (pieces (· == 10) bytes.data.toList).map fun line =>
    (String.fromUTF8? ⟨line.toArray⟩).map String.toList

/-- A text of whole lines: each is followed by a line feed. -/
def unlines (ls : List (List Char)) : List Char := ls.flatMap (· ++ ['\n'])

theorem textLines_unlines {ls : List (List Char)} (h : ∀ l ∈ ls, '\n' ∉ l) :
    textLines (unlines ls) = ls.map (· ++ ['\n']) := by
  induction ls with
  | nil => rfl
  | cons l rest ih =>
    have hl : ∀ x ∈ l, (x == '\n') = false := by
      intro x hx
      exact beq_eq_false_iff_ne.mpr fun he => h l List.mem_cons_self (he ▸ hx)
    rw [unlines, List.flatMap_cons, List.append_assoc, List.singleton_append, textLines,
      pieces_append_cons hl (by decide), ← unlines, ← textLines,
      ih fun r hr => h r (List.mem_cons_of_mem _ hr), List.map_cons]

/-- A line without its line feed, and without a carriage return right before that. -/
def chomp (line : List Char) : List Char :=
  if line.getLast? = some '\n' then
    if line.dropLast.getLast? = some '\r' then line.dropLast.dropLast else line.dropLast
  else line

end AgentPaths.Text
