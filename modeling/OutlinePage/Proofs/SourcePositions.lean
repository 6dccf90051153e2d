import Mathlib.Data.Nat.Init
import OutlinePage.Proofs.IndentationStyle
import OutlinePage.Proofs.IndentationTree
import OutlinePage.Proofs.Printing

/-!
# Where tags stand in the source

A tag's line and column are found in the code, in which spaces at the beginning of a line have
become tabs. The line is the one in the source. The column is not: it falls short by as many
characters as the indentation of the line has lost. It is right in lines without leading spaces, and
everywhere if a single space makes a level.
-/

namespace OutlinePage.Outline

/-- The name stands in the text at a line and a column, both from 1. -/
def NamedAt (text : Text) (line column : Int) (name : Text) : Prop :=
  0 < line ∧ 0 < column ∧ ∃ written ∈ (Text.split '\n' text)[line.toNat - 1]?,
    Text.startsWith name (written.drop (column.toNat - 1)) = true

instance (text : Text) (line column : Int) (name : Text) :
    Decidable (NamedAt text line column name) :=
  inferInstanceAs (Decidable (_ ∧ _ ∧ _))

/-- The line of the source that a tag was read from. -/
def writtenLine (source : Text) (tag : Tag) : Text :=
  (Text.split '\n' source).getD (tag.line.toNat - 1) []

/-- The characters that a line loses when its leading spaces become tabs. -/
def lostIndent (size : Nat) (line : Text) : Nat :=
  (leading line).count ' ' - (leading line).count ' ' / size

/-- Where the first word of a line begins, from 0. -/
def wordStart (line : Text) : Nat := (line.takeWhile (!isNameChar ·)).length

/-! ### Lines and their indentation -/

private theorem length_indent {t : Text} (h : ∀ c ∈ t, Text.isIndent c = true) :
    t.length = t.count '\t' + t.count ' ' := by
  induction t with
  | nil => rfl
  | cons c t ih =>
    have hrest := ih fun x hx => h x (List.mem_cons_of_mem c hx)
    have hc := h c List.mem_cons_self
    rw [Text.isIndent, Bool.or_eq_true, beq_iff_eq, beq_iff_eq] at hc
    rcases hc with rfl | rfl
    · simp [hrest]
      omega
    · simp [hrest]
      omega

private theorem isIndent_leading (line : Text) : ∀ c ∈ leading line, Text.isIndent c = true :=
  fun _ hc => List.mem_takeWhile_imp hc

/-- A line becomes tabs and what follows its indentation. -/
theorem tabLine_eq (size : Nat) (line : Text) :
    tabLine size line =
      List.replicate ((leading line).count '\t' + (leading line).count ' ' / size) '\t' ++
        content line := by
  by_cases hspace : ' ' ∈ leading line
  · have hdrop : line.drop (leading line).length = content line := by
      calc line.drop (leading line).length
          = (leading line ++ content line).drop (leading line).length := by
            rw [leading_append_content]
        _ = content line := List.drop_left
    simp only [tabLine, List.contains_iff_mem, if_pos hspace, hdrop]
  · have hnone : (leading line).count ' ' = 0 := List.count_eq_zero_of_not_mem hspace
    have hlength := length_indent (isIndent_leading line)
    have htabs : leading line = List.replicate ((leading line).count '\t') '\t' := by
      refine List.eq_replicate_iff.mpr ⟨by omega, fun c hc => ?_⟩
      have hindent := isIndent_leading line c hc
      have hne : c ≠ ' ' := fun heq => hspace (heq ▸ hc)
      simpa [Text.isIndent, hne] using hindent
    rw [tabLine_of_tabbed hspace, hnone, Nat.zero_div, Nat.add_zero, ← htabs,
      leading_append_content]

/-- Indentation goes before the first word, and makes no difference to it. -/
theorem firstWord_indent {indent : Text} (h : ∀ c ∈ indent, Text.isIndent c = true) (rest : Text) :
    firstWord (indent ++ rest) = firstWord rest ∧
      wordStart (indent ++ rest) = indent.length + wordStart rest := by
  have hpass : ∀ c ∈ indent, (!isNameChar c) = true := by
    intro c hc
    rw [Bool.not_eq_true', ← Bool.not_eq_true]
    intro hname
    have hindent := h c hc
    rw [isIndent_of_isNameChar hname] at hindent
    cases hindent
  constructor
  · rw [firstWord, List.dropWhile_append_of_pos hpass, ← firstWord]
  · rw [wordStart, List.takeWhile_append_of_pos hpass, List.length_append, ← wordStart]

/-- With its leading spaces as tabs, a line has the same first word, by so much further to the left
as it has lost. -/
theorem firstWord_tabLine (size : Nat) (line : Text) :
    firstWord (tabLine size line) = firstWord line ∧
      wordStart line = wordStart (tabLine size line) + lostIndent size line := by
  have htabs : ∀ c ∈ List.replicate
      ((leading line).count '\t' + (leading line).count ' ' / size) '\t',
      Text.isIndent c = true := by
    intro c hc
    rw [List.eq_of_mem_replicate hc]
    rfl
  obtain ⟨hword, hstart⟩ := firstWord_indent htabs (content line)
  obtain ⟨hword', hstart'⟩ := firstWord_indent (isIndent_leading line) (content line)
  rw [leading_append_content] at hword' hstart'
  refine ⟨by rw [tabLine_eq, hword, hword'], ?_⟩
  have hlength := length_indent (isIndent_leading line)
  have hle : (leading line).count ' ' / size ≤ (leading line).count ' ' := Nat.div_le_self _ _
  rw [tabLine_eq, hstart, hstart', List.length_replicate, lostIndent]
  omega

/-- Nothing is lost of a line without leading spaces, or if a single space makes a tab. -/
theorem lostIndent_eq_zero {size : Nat} {line : Text} :
    lostIndent size line = 0 ↔ ' ' ∉ leading line ∨ size = 1 := by
  have hle : (leading line).count ' ' / size ≤ (leading line).count ' ' := Nat.div_le_self _ _
  rw [← List.count_eq_zero, ← Nat.div_eq_self, lostIndent]
  omega

/-- A line goes on with its first word where the word begins, and nowhere before. -/
theorem startsWith_firstWord {line : Text} (hne : firstWord line ≠ []) {k : Nat}
    (hk : k ≤ wordStart line) :
    Text.startsWith (firstWord line) (line.drop k) = true ↔ k = wordStart line := by
  have hline : line = line.takeWhile (!isNameChar ·) ++ line.dropWhile (!isNameChar ·) :=
    List.takeWhile_append_dropWhile.symm
  rw [Text.startsWith, List.isPrefixOf_iff_prefix]
  constructor
  · intro hprefix
    by_contra hlt
    -- Before its first word a line has no character of a name.
    have hshort : k < (line.takeWhile (!isNameChar ·)).length := by
      rw [wordStart] at hk hlt
      omega
    obtain ⟨c, word, hword⟩ := List.exists_cons_of_ne_nil hne
    have hname : isNameChar c = true := by
      have hmem : c ∈ firstWord line := hword ▸ List.mem_cons_self
      exact List.mem_takeWhile_imp hmem
    have hdrop : line.drop k = (line.takeWhile (!isNameChar ·)).drop k ++
        line.dropWhile (!isNameChar ·) := by
      rw [← List.drop_append_of_le_length (Nat.le_of_lt hshort)]
      exact congrArg (List.drop k) hline
    rw [hdrop, List.drop_eq_getElem_cons hshort, hword, List.cons_append,
      List.cons_prefix_cons] at hprefix
    have hmem := List.getElem_mem hshort
    rw [← hprefix.1] at hmem
    have hjunk := List.mem_takeWhile_imp hmem
    simp [hname] at hjunk
  · rintro rfl
    have hdrop : line.drop (wordStart line) = line.dropWhile (!isNameChar ·) := by
      exact (congrArg (List.drop (wordStart line)) hline).trans List.drop_left
    rw [hdrop, firstWord]
    exact List.takeWhile_prefix _

/-! ### Lines of the code -/

private theorem lineOf_nil (number : Nat) : lineOf [] number = [] := by
  have hnone (n : Nat) : dropLines n [] = [] := by
    induction n with
    | zero => rfl
    | succ n ih => exact ih
  rw [lineOf, hnone]
  rfl

/-- Lines with their line feeds are the lines of the text. -/
theorem lineOf_joinLines {lines : List Text} (h : ∀ line ∈ lines, '\n' ∉ line) (n : Nat) :
    lineOf (joinLines lines) (n + 1) = lines.getD n [] := by
  induction lines generalizing n with
  | nil => exact lineOf_nil (n + 1)
  | cons line lines ih =>
    have hinside : ∀ c ∈ line, inLine c = true := by
      intro c hc
      exact inLine_eq_true.mpr fun heq => h line List.mem_cons_self (heq ▸ hc)
    obtain ⟨htake, hdrop⟩ := span_append hinside inLine_newline (joinLines lines)
    cases n with
    | zero =>
      rw [joinLines_cons]
      exact htake
    | succ n =>
      have hnext : nextLine (line ++ '\n' :: joinLines lines) = joinLines lines := by
        rw [nextLine, hdrop]
        rfl
      have hstep := ih (fun l hl => h l (List.mem_cons_of_mem line hl)) n
      rw [lineOf, Nat.add_sub_cancel] at hstep
      rw [joinLines_cons, lineOf, Nat.add_sub_cancel, dropLines, hnext, hstep]
      rfl

/-- The lines of the code are those of the source with their leading spaces as tabs. -/
theorem lineOf_codeOf {source : Text} (h : '\r' ∉ source) (n : Nat) :
    lineOf (codeOf source) (n + 1) =
      tabLine (indentSize (Text.split '\n' source)) ((Text.split '\n' source).getD n []) := by
  have hlines : sourceLines source = Text.split '\n' source := by
    rw [sourceLines, dropReturns_eq_self h]
  have hcode : codeOf source = joinLines
      ((Text.split '\n' source).map (tabLine (indentSize (Text.split '\n' source)))) := by
    rw [codeOf, normalizeIndentation, hlines]
    exact join_append_newline (by simpa using Text.split_ne_nil '\n' source)
  have hempty (size : Nat) : tabLine size [] = [] := rfl
  rw [hcode, lineOf_joinLines fun line hline =>
    ((onlyIndents_tabLine _).not_mem h hline).1]
  rw [List.getD_eq_getElem?_getD, List.getD_eq_getElem?_getD, List.getElem?_map]
  cases (Text.split '\n' source)[n]? <;> rfl

/-- Each tag stands at the first word of its line in the code. -/
theorem Scanned.stands {code before : Text} {room : Nat} {tags : List (Nat × Tag)}
    (h : Scanned code before room tags) :
    ∀ e ∈ tags, e.2.name ≠ [] ∧ 0 < e.2.line ∧
      e.2.column = ((wordStart (lineOf code e.2.line.toNat) + 1 : Nat) : Int) := by
  induction h with
  | done => simp
  | pass _ _ _ _ _ ih => exact ih
  | tag lies _ ih =>
    intro e he
    rcases List.mem_cons.mp he with rfl | he
    · refine ⟨lies.name_ne_nil, ?_, ?_⟩
      · rw [lies.line]
        omega
      · rw [lies.column, lies.lineOf_eq, wordStart, (lies.span_junk _).1]
    · exact ih e he

/-! ### Positions in the source -/

private theorem namedAt_iff {text name written : Text} {line : Int} (hline : 0 < line)
    (hwritten : (Text.split '\n' text)[line.toNat - 1]? = some written) (start : Nat) :
    NamedAt text line (start + 1) name ↔ Text.startsWith name (written.drop start) = true := by
  have hstart : ((start : Int) + 1).toNat - 1 = start := by omega
  rw [NamedAt, hstart, hwritten]
  constructor
  · rintro ⟨-, -, found, hfound, hstarts⟩
    cases hfound
    exact hstarts
  · intro hstarts
    exact ⟨hline, by omega, written, rfl, hstarts⟩

private theorem getElem?_writtenLine {source : Text} {tag : Tag} (h : writtenLine source tag ≠ []) :
    (Text.split '\n' source)[tag.line.toNat - 1]? = some (writtenLine source tag) := by
  rw [writtenLine, List.getD_eq_getElem?_getD] at h ⊢
  cases hfound : (Text.split '\n' source)[tag.line.toNat - 1]? with
  | none =>
    rw [hfound] at h
    exact absurd rfl h
  | some found => rfl

/-- In a source without carriage returns, the name of every tag stands in the line that the tag
says, and by so many characters further to the right than it says as the line has lost of its
indentation. So the position of a tag is the position of its name in the source if and only if its
line has no leading spaces, or if a single space makes a level throughout the source. -/
theorem positions_in_source {source : Text} {options : Options} {elements : List Element}
    (hreturn : '\r' ∉ source) (hread : read source options = .ok elements) :
    ∀ e ∈ flatten 0 elements,
      let size := indentSize (Text.split '\n' source)
      let written := writtenLine source e.2
      NamedAt source e.2.line (e.2.column + lostIndent size written) e.2.name ∧
        (NamedAt source e.2.line e.2.column e.2.name ↔ ' ' ∉ leading written ∨ size = 1) := by
  intro e he size written
  have hflat := read_flat source options
  rw [hread] at hflat
  have scanned : Scanned (codeOf source) [] 0 (flatten 0 elements) :=
    Source.scanned_of_scanLines (s := ⟨codeOf source, options⟩) (whole_codeOf source) rfl whole_nil
      hflat.symm
  obtain ⟨hne, hline, hcolumn⟩ := scanned.stands e he
  have hname := scanned.name_eq e he
  -- The line in the code is the one in the source with its leading spaces as tabs.
  have hcode : lineOf (codeOf source) e.2.line.toNat = tabLine size written := by
    have hpos : e.2.line.toNat = e.2.line.toNat - 1 + 1 := by omega
    rw [hpos]
    exact lineOf_codeOf hreturn _
  obtain ⟨hword, hstart⟩ := firstWord_tabLine size written
  rw [hcode] at hname hcolumn
  rw [hword] at hname
  have hsome : firstWord written ≠ [] := hname ▸ hne
  have hwritten := getElem?_writtenLine fun hnil => hsome (congrArg firstWord hnil)
  have hnamed (start : Nat) : NamedAt source e.2.line (start + 1) e.2.name ↔
      Text.startsWith (firstWord written) (written.drop start) = true := by
    rw [namedAt_iff hline hwritten, hname]
  rw [hcolumn]
  constructor
  · have hshift : ((wordStart (tabLine size written) + 1 : Nat) : Int) + lostIndent size written =
        (wordStart written : Int) + 1 := by omega
    rw [hshift, hnamed]
    exact (startsWith_firstWord hsome (Nat.le_refl _)).mpr rfl
  · rw [Int.natCast_add, Int.natCast_one, hnamed, startsWith_firstWord hsome (by omega),
      ← lostIndent_eq_zero]
    omega

/-- The second line is indented by a tab, the third by spaces, the fourth by both. -/
theorem positions_in_source_at_list :
    ∃ elements,
      read "ul\n\tli a\n  li\n\t  b x" { file := "i" } = .ok elements ∧
      (flatten 0 elements).map (fun e => (e.2.line, e.2.column)) =
        [(1, 1), (2, 2), (3, 2), (4, 3)] ∧
      ∀ e ∈ flatten 0 elements,
        NamedAt "ul\n\tli a\n  li\n\t  b x" e.2.line
          (e.2.column + lostIndent 2 (writtenLine "ul\n\tli a\n  li\n\t  b x" e.2)) e.2.name := by
  have h : ((read "ul\n\tli a\n  li\n\t  b x" { file := "i" }).toOption.map
      fun elements => (flatten 0 elements).map fun e => (e.2.line, e.2.column)) =
        some [(1, 1), (2, 2), (3, 2), (4, 3)] := by
    decide +kernel
  cases hread : read "ul\n\tli a\n  li\n\t  b x" { file := "i" } with
  | error e =>
    rw [hread] at h
    cases h
  | ok elements =>
    rw [hread] at h
    have hnamed := positions_in_source (by decide) hread
    exact ⟨elements, rfl, Option.some.inj h, fun e he => (hnamed e he).1⟩

/-- Of a line that is indented by four spaces the column is off by three. -/
theorem column_short_of_spaces :
    ((read "div\n    p hi\n" { file := "i" }).toOption.map fun elements =>
        (flatten 0 elements).map fun e => (e.2.name, e.2.line, e.2.column)) =
      some [("div".toList, 1, 1), ("p".toList, 2, 2)] ∧
    ¬ NamedAt "div\n    p hi\n" 2 2 "p" ∧ NamedAt "div\n    p hi\n" 2 5 "p" := by
  decide +kernel

end OutlinePage.Outline
