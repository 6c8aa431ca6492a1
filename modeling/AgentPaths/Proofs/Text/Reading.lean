import Mathlib.Data.List.DropRight
import Mathlib.Data.List.Forall2
import AgentPaths.Text.Line
import AgentPaths.Text.Number

/-!
The text of a file seen from outside: lines are what lies between line feeds, words are what lies
between blanks, and a numeral is a run of digits. A reader that cuts behind each separator finds the
same lines and words, and it takes exactly the numerals for numbers.
-/
namespace AgentPaths.Text

section Cuts

variable {α β : Type} {p : α → Bool}

/-- Induction over the separators of a list: a list without any, and a list up to its first one. -/
@[elab_as_elim]
theorem cut_induction {motive : List α → Prop} (p : α → Bool)
    (whole : ∀ s, (∀ x ∈ s, p x = false) → motive s)
    (cut : ∀ l a r, (∀ x ∈ l, p x = false) → p a = true → motive r → motive (l ++ a :: r))
    (s : List α) : motive s := by
  -- `front` is what has been passed without meeting a separator
  suffices h : ∀ r front : List α, (∀ x ∈ front, p x = false) → motive (front ++ r) from
    h s [] (by simp)
  intro r
  induction r with
  | nil =>
    intro front hfront
    rw [List.append_nil]
    exact whole front hfront
  | cons a r ih =>
    intro front hfront
    cases ha : p a with
    | true => exact cut front a r hfront ha (ih [] (by simp))
    | false =>
      rw [List.append_cons]
      exact ih (front ++ [a]) (List.forall_mem_append.mpr ⟨hfront, by simpa using ha⟩)

theorem forall_mem_splitOnP (s : List α) : ∀ l ∈ s.splitOnP p, ∀ x ∈ l, p x = false := by
  induction s using cut_induction p with
  | whole s hs =>
    rw [List.splitOnP_eq_singleton hs]
    simpa using hs
  | cut l a r hl ha ih =>
    rw [List.splitOnP_append_cons_of_forall_mem hl a ha]
    exact List.forall_mem_cons.mpr ⟨hl, ih⟩

/-- Pieces still end with their separator, and behind a last separator there is no piece. Neither is
seen where `f` ignores the separator and `q` drops what comes of an empty piece. -/
theorem filter_map_pieces {f : List α → β} {q : β → Bool}
    (hf : ∀ l a, p a = true → f (l ++ [a]) = f l) (hq : q (f []) = false) (s : List α) :
    ((pieces p s).map f).filter q = ((s.splitOnP p).map f).filter q := by
  induction s using cut_induction p with
  | whole s hs =>
    rw [List.splitOnP_eq_singleton hs]
    cases s with
    | nil => simp [pieces, hq]
    | cons a r => rw [pieces_of_none (by simp) hs]
  | cut l a r hl ha ih =>
    rw [pieces_append_cons hl ha, List.splitOnP_append_cons_of_forall_mem hl a ha, List.map_cons,
      List.map_cons, List.filter_cons, List.filter_cons, hf l a ha, ih]

/-- The same for pieces that are counted from `k` on. -/
theorem filter_zipIdx_map_pieces {f : List α → β} {q : β → Bool}
    (hf : ∀ l a, p a = true → f (l ++ [a]) = f l) (hq : q (f []) = false) (s : List α) (k : Nat) :
    (((pieces p s).map f).zipIdx k).filter (q ·.1) =
      (((s.splitOnP p).map f).zipIdx k).filter (q ·.1) := by
  induction s using cut_induction p generalizing k with
  | whole s hs =>
    rw [List.splitOnP_eq_singleton hs]
    cases s with
    | nil => simp [pieces, hq]
    | cons a r => rw [pieces_of_none (by simp) hs]
  | cut l a r hl ha ih =>
    rw [pieces_append_cons hl ha, List.splitOnP_append_cons_of_forall_mem hl a ha, List.map_cons,
      List.map_cons, List.zipIdx_cons, List.zipIdx_cons, List.filter_cons, List.filter_cons,
      hf l a ha, ih]

theorem rdropWhile_cons (q : β → Bool) (b : β) (l : List β) : (b :: l).rdropWhile q =
    if l.rdropWhile q = [] ∧ q b = true then [] else b :: l.rdropWhile q := by
  simp only [List.rdropWhile, List.reverse_cons, List.dropWhile_append, List.isEmpty_iff,
    List.reverse_eq_nil_iff]
  by_cases hnil : l.reverse.dropWhile q = []
  · cases hb : q b <;> simp [hnil, hb]
  · simp [hnil]

/-- Where `f` ignores the separator, the only difference is at the end, where there may be no piece
for the empty list behind a last separator. -/
theorem rdropWhile_map_pieces {f : List α → β} {q : β → Bool}
    (hf : ∀ l a, p a = true → f (l ++ [a]) = f l) (hq : q (f []) = true) (s : List α) :
    ((pieces p s).map f).rdropWhile q = ((s.splitOnP p).map f).rdropWhile q := by
  induction s using cut_induction p with
  | whole s hs =>
    rw [List.splitOnP_eq_singleton hs]
    cases s with
    | nil => simp [pieces, hq, List.rdropWhile]
    | cons a r => rw [pieces_of_none (by simp) hs]
  | cut l a r hl ha ih =>
    rw [pieces_append_cons hl ha, List.splitOnP_append_cons_of_forall_mem hl a ha, List.map_cons,
      List.map_cons, hf l a ha, rdropWhile_cons, rdropWhile_cons, ih]

theorem forall₂_dropWhile {R : α → β → Prop} {q : β → Bool} (hpq : ∀ x y, R x y → p x = q y)
    (hexists : ∀ x, p x = true → ∃ y, R x y) {xs : List α} {zs : List β} :
    List.Forall₂ R (xs.dropWhile p) zs ↔ ∃ ys, List.Forall₂ R xs ys ∧ ys.dropWhile q = zs := by
  induction xs with
  | nil => simp [eq_comm]
  | cons x xs ih =>
    simp only [List.forall₂_cons_left_iff]
    cases hx : p x with
    | true =>
      rw [List.dropWhile_cons_of_pos hx, ih]
      constructor
      · intro h
        obtain ⟨ys, hys, hzs⟩ := h
        obtain ⟨y, hy⟩ := hexists x hx
        refine ⟨y :: ys, ⟨y, ys, hy, hys, rfl⟩, ?_⟩
        rw [List.dropWhile_cons_of_pos (hpq x y hy ▸ hx), hzs]
      · intro h
        obtain ⟨_, ⟨y, ys, hy, hys, rfl⟩, hzs⟩ := h
        rw [List.dropWhile_cons_of_pos (hpq x y hy ▸ hx)] at hzs
        exact ⟨ys, hys, hzs⟩
    | false =>
      have hkeep (y : β) (ys : List β) (hy : R x y) : (y :: ys).dropWhile q = y :: ys :=
        List.dropWhile_cons_of_neg (by simp [← hpq x y hy, hx])
      rw [List.dropWhile_cons_of_neg (by simp [hx]), List.forall₂_cons_left_iff]
      constructor
      · intro h
        obtain ⟨y, ys, hy, hys, rfl⟩ := h
        exact ⟨y :: ys, ⟨y, ys, hy, hys, rfl⟩, hkeep y ys hy⟩
      · intro h
        obtain ⟨_, ⟨y, ys, hy, hys, rfl⟩, rfl⟩ := h
        exact ⟨y, ys, hy, hys, hkeep y ys hy⟩

/-- Items that are dropped from the end of one list can be dropped from the other instead. -/
theorem forall₂_rdropWhile {R : α → β → Prop} {q : β → Bool} (hpq : ∀ x y, R x y → p x = q y)
    (hexists : ∀ x, p x = true → ∃ y, R x y) {xs : List α} {zs : List β} :
    List.Forall₂ R (xs.rdropWhile p) zs ↔ ∃ ys, List.Forall₂ R xs ys ∧ ys.rdropWhile q = zs := by
  rw [← List.forall₂_reverse_iff, List.rdropWhile, List.reverse_reverse,
    forall₂_dropWhile hpq hexists]
  constructor
  · intro h
    obtain ⟨ys, hys, hzs⟩ := h
    refine ⟨ys.reverse, List.forall₂_reverse_iff.mp (by rwa [List.reverse_reverse]), ?_⟩
    rw [List.rdropWhile, List.reverse_reverse, hzs, List.reverse_reverse]
  · intro h
    obtain ⟨ys, hys, rfl⟩ := h
    exact ⟨ys.reverse, List.forall₂_reverse_iff.mpr hys, (List.reverse_reverse _).symm⟩

/-- Lists written with one code for each element are cut alike before and after, if the codes of the
separators are the separators of the code. -/
theorem pieces_flatMap {q : β → Bool} {f : α → List β}
    (hcut : ∀ a, p a = true → ∃ b, f a = [b] ∧ q b = true)
    (hpass : ∀ a, p a = false → f a ≠ [] ∧ ∀ b ∈ f a, q b = false) (s : List α) :
    pieces q (s.flatMap f) = (pieces p s).map (List.flatMap f) := by
  have hfree : ∀ l : List α, (∀ x ∈ l, p x = false) → ∀ b ∈ l.flatMap f, q b = false := by
    intro l hl b hb
    obtain ⟨x, hx, hbx⟩ := List.mem_flatMap.mp hb
    exact (hpass x (hl x hx)).2 b hbx
  induction s using cut_induction p with
  | whole s hs =>
    cases s with
    | nil => rfl
    | cons a r =>
      have hne : (a :: r).flatMap f ≠ [] := by
        rw [List.flatMap_cons]
        exact List.append_ne_nil_of_left_ne_nil (hpass a (hs a List.mem_cons_self)).1 _
      rw [pieces_of_none hne (hfree _ hs), pieces_of_none (by simp) hs]
      rfl
  | cut l a r hl ha ih =>
    obtain ⟨b, hb, hqb⟩ := hcut a ha
    rw [List.flatMap_append, List.flatMap_cons, hb, List.singleton_append,
      pieces_append_cons (hfree l hl) hqb, ih, pieces_append_cons hl ha, List.map_cons,
      List.flatMap_append, List.flatMap_cons, List.flatMap_nil, List.append_nil, hb]

end Cuts

theorem le_of_mem_utf8EncodeChar {c : Char} (h : 128 ≤ c.toNat) :
    ∀ b ∈ String.utf8EncodeChar c, 128 ≤ b.toNat := by
  simp only [String.utf8EncodeChar, Char.toNat_val]
  rw [if_neg (by omega)]
  split
  · simp only [List.forall_mem_cons, UInt8.toNat_ofNat', List.not_mem_nil, false_imp_iff,
        implies_true, and_true]
    omega
  · split
    all_goals
      simp only [List.forall_mem_cons, UInt8.toNat_ofNat', List.not_mem_nil, false_imp_iff,
        implies_true, and_true]
      omega

/-- The byte of a line feed stands for nothing else. -/
theorem utf8EncodeChar_ne_lineFeed {c : Char} (h : (c == '\n') = false) :
    ∀ b ∈ String.utf8EncodeChar c, (b == 10) = false := by
  intro b hb
  rw [beq_eq_false_iff_ne, Ne, ← UInt8.toNat_inj]
  by_cases hlt : c.toNat < 128
  · have hone : String.utf8EncodeChar c = [UInt8.ofNat c.toNat] := by
      simp only [String.utf8EncodeChar, Char.toNat_val]
      exact if_pos (Nat.le_of_lt_succ hlt)
    rw [hone, List.mem_singleton] at hb
    have hc : c.toNat ≠ 10 := fun he => beq_eq_false_iff_ne.mp h (Char.toNat_inj.mp he)
    rw [hb, UInt8.toNat_ofNat', Nat.mod_eq_of_lt (by omega)]
    exact hc
  · have hle := le_of_mem_utf8EncodeChar (Nat.not_lt.mp hlt) b hb
    exact fun he => absurd (he ▸ hle) (by decide)

/-- The lines of the file that holds a text in UTF-8. -/
def Source.ofUTF8 (s : List Char) : Source := .ofBytes (String.ofList s).toUTF8

/-- Cut into lines first and decoded afterwards, such a file has the lines of its text. -/
theorem ofUTF8_eq_ofText (s : List Char) : Source.ofUTF8 s = Source.ofText s := by
  have hdecode : ∀ l : List Char,
      String.fromUTF8? ⟨(l.flatMap String.utf8EncodeChar).toArray⟩ = some (String.ofList l) := by
    intro l
    have hbytes : (⟨(l.flatMap String.utf8EncodeChar).toArray⟩ : ByteArray) = l.utf8Encode :=
      ByteArray.ext List.data_toByteArray.symm
    rw [hbytes]
    exact dif_pos (String.ofList l).isValidUTF8
  have hdata : (String.ofList s).toUTF8.data.toList = s.flatMap String.utf8EncodeChar :=
    List.toList_data_toByteArray
  rw [Source.ofUTF8, Source.ofBytes, hdata, pieces_flatMap (p := (· == '\n')), List.map_map,
    Source.ofText, textLines]
  · refine List.map_congr_left fun l _ => ?_
    rw [Function.comp_apply, hdecode, Option.map_some, String.toList_ofList]
  · intro a ha
    rw [beq_iff_eq.mp ha]
    exact ⟨10, rfl, rfl⟩
  · intro a ha
    exact ⟨String.utf8EncodeChar_ne_nil, utf8EncodeChar_ne_lineFeed ha⟩

theorem words_eq_splitOnP (s : List Char) :
    words s = (s.splitOnP isBlank).filter (!·.isEmpty) := by
  have hself : (s.splitOnP isBlank).map (List.filter (!isBlank ·)) = s.splitOnP isBlank := by
    refine (List.map_congr_left fun l hl => ?_).trans (List.map_id _)
    exact List.filter_eq_self.mpr fun c hc => by simp [forall_mem_splitOnP s l hl c hc]
  have hcut := filter_map_pieces (p := isBlank) (f := List.filter (!isBlank ·)) (q := (!·.isEmpty))
    (fun l a ha => by simp [ha]) rfl s
  rwa [hself] at hcut

theorem words_concat {b : Char} (hb : isBlank b = true) (l : List Char) :
    words (l ++ [b]) = words l := by
  rw [words_eq_splitOnP, words_eq_splitOnP, List.splitOnP_append_cons l [] hb, List.filter_append]
  simp

theorem words_chomp (l : List Char) : words (chomp l) = words l := by
  unfold chomp
  split
  next hfeed =>
    have hfeed' : words l.dropLast = words l := by
      obtain ⟨l, rfl⟩ := List.getLast?_eq_some_iff.mp hfeed
      rw [List.dropLast_concat, words_concat (by decide)]
    split
    next hreturn =>
      rw [← hfeed']
      obtain ⟨r, hr⟩ := List.getLast?_eq_some_iff.mp hreturn
      rw [hr, List.dropLast_concat, words_concat (by decide)]
    next => exact hfeed'
  next => rfl

theorem words_eq_nil {l : List Char} : words l = [] ↔ ∀ c ∈ l, isBlank c = true := by
  rw [words_eq_splitOnP]
  induction l using cut_induction isBlank with
  | whole s hs =>
    rw [List.splitOnP_eq_singleton hs]
    cases s with
    | nil => simp
    | cons a r => simp [hs a]
  | cut l a r hl ha ih =>
    rw [List.splitOnP_append_cons_of_forall_mem hl a ha]
    cases l with
    | nil => simp [ha, ih]
    | cons b l => simp [hl b]
theorem trim_concat {b : Char} (hb : isBlank b = true) (l : List Char) :
    trim (l ++ [b]) = trim l := by
  rw [trim, trim, List.dropWhile_append]
  split
  next h => rw [List.isEmpty_iff.mp h, List.dropWhile_cons_of_pos hb, List.dropWhile_nil]
  next h =>
    rw [List.reverse_append, List.reverse_singleton, List.singleton_append,
      List.dropWhile_cons_of_pos hb]

/-- A numeral of `n`: digits of this value, perhaps behind a plus. The value has to fit into a word,
the digits may be any number. -/
def Numeral (token : List Char) (n : Nat) : Prop :=
  ∃ ds, (token = ds ∨ token = '+' :: ds) ∧ ds ≠ [] ∧ (∀ c ∈ ds, c.isDigit = true) ∧
    Nat.ofDigitChars 10 ds 0 = n ∧ n < wordBound

theorem digits?_eq_some {s : List Char} {n : Nat} : digits? s = some n ↔
    s ≠ [] ∧ (∀ c ∈ s, c.isDigit = true) ∧ Nat.ofDigitChars 10 s 0 = n := by
  simp only [digits?, List.all_eq_true]
  split
  next h => rw [Option.some.injEq, and_iff_right h.1, and_iff_right h.2]
  next h =>
    rw [← and_assoc]
    exact iff_of_false (by simp) fun hs => h hs.1

theorem number?_eq_some {token : List Char} {n : Nat} :
    number? token = some n ↔ Numeral token n := by
  rw [number?, Option.filter_eq_some_iff, digits?_eq_some, decide_eq_true_iff]
  constructor
  · rintro ⟨⟨hne, hdigits, hvalue⟩, hlt⟩
    refine ⟨_, ?_, hne, hdigits, hvalue, hlt⟩
    split
    next hplus => exact Or.inr (List.eq_cons_of_mem_head? hplus)
    next => exact Or.inl rfl
  · rintro ⟨ds, rfl | rfl, hne, hdigits, hvalue, hlt⟩
    · -- a plus is no digit, so that none is taken off the front
      have hplus : token.head? ≠ some '+' := fun he =>
        absurd (hdigits '+' (List.mem_of_head? he)) (by decide)
      rw [if_neg hplus]
      exact ⟨⟨hne, hdigits, hvalue⟩, hlt⟩
    · exact ⟨⟨hne, hdigits, hvalue⟩, hlt⟩

theorem numbers?_eq_some {line : List Char} {ns : List Nat} : numbers? line = some ns ↔
    List.Forall₂ Numeral ((line.splitOnP isBlank).filter (!·.isEmpty)) ns := by
  rw [numbers?, words_eq_splitOnP]
  generalize (line.splitOnP isBlank).filter (!·.isEmpty) = tokens
  induction tokens generalizing ns with
  | nil => cases ns <;> simp
  | cons token tokens ih =>
    simp only [List.mapM_cons, Option.pure_def, Option.bind_eq_bind, Option.bind_eq_some_iff,
      Option.some.injEq, number?_eq_some, List.forall₂_cons_left_iff]
    constructor
    · rintro ⟨n, hn, rest, hrest, rfl⟩
      exact ⟨n, rest, hn, ih.mp hrest, rfl⟩
    · rintro ⟨n, rest, hn, hrest, rfl⟩
      exact ⟨n, hn, rest, ih.mpr hrest, rfl⟩

end AgentPaths.Text
