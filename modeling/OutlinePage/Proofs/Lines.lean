import Mathlib.Data.List.TakeWhile
import OutlinePage.Outline.Parser

/-!
# Lines of the code

Numbered lines, without reference to how the code is read. A place at the beginning of a line is a
cut of the code into what comes before, which is empty or ends with a line feed, and the rest. The
number of line feeds before the cut numbers the line.
-/

namespace OutlinePage.Outline

/-- The code from the next line on. -/
def nextLine (rest : Text) : Text := (rest.dropWhile inLine).drop 1

/-- The code without its first `n` lines. -/
def dropLines : Nat → Text → Text
  | 0, code => code
  | n + 1, code => dropLines n (nextLine code)

/-- The line of the given number, from 1; the empty text after the last line. -/
def lineOf (code : Text) (number : Nat) : Text := (dropLines (number - 1) code).takeWhile inLine

/-- Nothing, or whole lines with their line feeds. -/
def Whole (before : Text) : Prop := before = [] ∨ ∃ t, before = t ++ ['\n']

/-- Every character but a line feed is within a line. -/
theorem inLine_eq_true {c : Char} : inLine c = true ↔ c ≠ '\n' := by
  simp [inLine]

/-- A line feed is not. -/
@[simp] theorem inLine_newline : inLine '\n' = false := rfl

/-- No text is no lines, and these are whole. -/
theorem whole_nil : Whole [] := Or.inl rfl

/-- What a line feed ends is made of whole lines. -/
theorem whole_append_newline (t : Text) : Whole (t ++ ['\n']) := Or.inr ⟨t, rfl⟩

/-- A run of characters of one kind ends at the first character of another. -/
theorem span_append {p : Char → Bool} {run : Text} (hrun : ∀ c ∈ run, p c = true) {c : Char}
    (hc : p c = false) (rest : Text) :
    (run ++ c :: rest).takeWhile p = run ∧ (run ++ c :: rest).dropWhile p = c :: rest := by
  have hstop : ¬ p c = true := by
    rw [hc]
    exact Bool.false_ne_true
  rw [List.takeWhile_append_of_pos hrun, List.dropWhile_append_of_pos hrun,
    List.takeWhile_cons_of_neg hstop, List.dropWhile_cons_of_neg hstop, List.append_nil]
  exact ⟨rfl, rfl⟩

/-- A rest within its line begins with a line feed, unless the code ends before one. -/
theorem dropWhile_inLine_cases (t : Text) :
    t.dropWhile inLine = [] ∨ ∃ r, t.dropWhile inLine = '\n' :: r := by
  induction t with
  | nil => exact Or.inl rfl
  | cons c t ih =>
    by_cases hc : c = '\n'
    · subst c
      exact Or.inr ⟨t, rfl⟩
    · rw [List.dropWhile_cons_of_pos (inLine_eq_true.mpr hc)]
      exact ih

/-- Within a line there is no line feed. -/
theorem count_newline_eq_zero {t : Text} (h : ∀ c ∈ t, inLine c = true) : t.count '\n' = 0 := by
  apply List.count_eq_zero_of_not_mem
  intro hm
  have := h '\n' hm
  simp at this

private theorem dropLines_cons {c : Char} (hc : c ≠ '\n') (n : Nat) (t : Text) :
    dropLines (n + 1) (c :: t) = dropLines (n + 1) t := by
  simp only [dropLines, nextLine, List.dropWhile_cons_of_pos (inLine_eq_true.mpr hc)]

private theorem dropLines_newline (n : Nat) (t : Text) :
    dropLines (n + 1) ('\n' :: t) = dropLines n t := by
  simp [dropLines, nextLine]

private theorem dropLines_count_succ (t rest : Text) :
    dropLines (t.count '\n' + 1) (t ++ '\n' :: rest) = rest := by
  induction t with
  | nil => rfl
  | cons c t ih =>
    by_cases hc : c = '\n'
    · subst c
      rw [List.count_cons_self, List.cons_append, dropLines_newline, ih]
    · rw [List.count_cons_of_ne hc, List.cons_append, dropLines_cons hc, ih]

/-- Dropping the lines before a place at the beginning of a line leads to the place. -/
theorem dropLines_count {before : Text} (h : Whole before) (rest : Text) :
    dropLines (before.count '\n') (before ++ rest) = rest := by
  rcases h with rfl | ⟨t, rfl⟩
  · rfl
  · rw [List.count_append, List.append_assoc]
    exact dropLines_count_succ t rest

/-- After the last line there is nothing. -/
theorem dropLines_of_count_lt {code : Text} {n : Nat} (h : code.count '\n' < n) :
    dropLines n code = [] := by
  induction code generalizing n with
  | nil =>
    clear h
    induction n with
    | zero => rfl
    | succ n ih => exact ih
  | cons c t ih =>
    obtain ⟨n, rfl⟩ : ∃ k, n = k + 1 := ⟨n - 1, by omega⟩
    by_cases hc : c = '\n'
    · subst c
      rw [dropLines_newline]
      apply ih
      rw [List.count_cons_self] at h
      omega
    · rw [dropLines_cons hc]
      apply ih
      rwa [List.count_cons_of_ne hc] at h

/-- The line that begins at a place. -/
theorem lineOf_count {before : Text} (h : Whole before) (rest : Text) :
    lineOf (before ++ rest) (before.count '\n' + 1) = rest.takeWhile inLine := by
  rw [lineOf, Nat.add_sub_cancel, dropLines_count h]

/-- After the last of whole lines there are only empty lines. -/
theorem lineOf_of_count_lt {code : Text} (h : Whole code) {n : Nat} (hn : code.count '\n' < n) :
    lineOf code n = [] := by
  have hd : dropLines (n - 1) code = [] := by
    by_cases he : n - 1 = code.count '\n'
    · have := dropLines_count h []
      rwa [List.append_nil, ← he] at this
    · exact dropLines_of_count_lt (by omega)
  rw [lineOf, hd]
  rfl

private theorem takeWhile_reverse_whole {before : Text} (h : Whole before) :
    before.reverse.takeWhile (· != '\n') = [] := by
  rcases h with rfl | ⟨t, rfl⟩
  · rfl
  · simp

/-- Line and column of an offset within the line that begins at a place. -/
theorem lineColumn_eq {before junk : Text} (h : Whole before)
    (hj : ∀ c ∈ junk, inLine c = true) (rest : Text) :
    lineColumn (before ++ (junk ++ rest)) (before.length + junk.length) =
      (before.count '\n' + 1, junk.length + 1) := by
  have ht : (before ++ (junk ++ rest)).take (before.length + junk.length) = before ++ junk := by
    rw [← List.append_assoc, ← List.length_append, List.take_left]
  have hr : ∀ c ∈ junk.reverse, (c != '\n') = true := by
    intro c hc
    exact hj c (List.mem_reverse.mp hc)
  simp only [lineColumn, ht, List.count_append, count_newline_eq_zero hj, Nat.add_zero,
    List.reverse_append]
  rw [List.takeWhile_append_of_pos hr, takeWhile_reverse_whole h]
  simp

end OutlinePage.Outline
