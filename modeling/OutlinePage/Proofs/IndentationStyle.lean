import Mathlib.Data.List.TakeWhile
import OutlinePage.Outline.Parser
import OutlinePage.Proofs.Pieces

/-!
# Tabs or spaces, with or without carriage returns

An outline that is indented with tabs may as well be written with any fixed number of spaces for
each tab, and its lines may end with a carriage return and a line feed. The number of spaces is
found from one line and then counted out of every other, so all spellings come to the same code, and
reading them comes to the same.
-/

namespace OutlinePage.Outline

/-! ### Other spellings of an outline -/

/-- The line with `n` spaces for each leading tab. -/
def spacedLine (n : Nat) (line : Text) : Text :=
  List.replicate (n * (line.takeWhile (· == '\t')).length) ' ' ++ line.dropWhile (· == '\t')

/-- The source with `n` spaces for each leading tab of its lines. -/
def spaced (n : Nat) (source : Text) : Text :=
  Text.join "\n" ((Text.split '\n' source).map (spacedLine n))

/-- The text with a carriage return before each line feed. -/
def withReturns (t : Text) : Text := Text.expand '\n' "\r\n" t

/-- Is the line indented, and is there more to it than white space? -/
def isIndented (line : Text) : Bool := !(leading line).isEmpty && !Text.isBlankText line

/-- No line of the source has a space in its indentation, and the lines end with line feeds only. -/
structure Tabbed (source : Text) : Prop where
  no_return : '\r' ∉ source
  no_space : ∀ line ∈ Text.split '\n' source, ' ' ∉ leading line

/-- The source is indented with tabs, and its lines end with line feeds only. The first line that is
indented and not blank has one tab. -/
structure TabIndented (source : Text) : Prop extends Tabbed source where
  first : ((Text.split '\n' source).find? isIndented).map leading = some ['\t']

/-! ### Leading tabs and spaces -/

/-- A run of one character ends before the first character of another kind. -/
theorem span_replicate {p : Char → Bool} {c : Char} (hc : p c = true) (k : Nat) {rest : Text}
    (hrest : ∀ x ∈ rest.head?, p x = false) :
    (List.replicate k c ++ rest).takeWhile p = List.replicate k c ∧
      (List.replicate k c ++ rest).dropWhile p = rest := by
  have hrun : ∀ x ∈ List.replicate k c, p x = true := by
    intro x hx
    rwa [List.eq_of_mem_replicate hx]
  rw [List.takeWhile_append_of_pos hrun, List.dropWhile_append_of_pos hrun]
  cases rest with
  | nil => simp
  | cons x rest =>
    have hx : p x = false := hrest x rfl
    simp [hx]

/-- What follows the indentation of a line. -/
def content (line : Text) : Text := line.dropWhile Text.isIndent

/-- The indentation of a line and its content are the line. -/
theorem leading_append_content (line : Text) : leading line ++ content line = line :=
  List.takeWhile_append_dropWhile

private theorem head_content (line : Text) :
    ∀ x ∈ (content line).head?, Text.isIndent x = false := by
  intro x hx
  have hhead := List.head?_dropWhile_not Text.isIndent line
  rw [content] at hx
  simpa [Option.mem_def.mp hx] using hhead

/-- A line without leading spaces consists of tabs and of something that is not indented. -/
theorem exists_tabs {line : Text} (h : ' ' ∉ leading line) :
    ∃ k rest, line = List.replicate k '\t' ++ rest ∧
      ∀ x ∈ rest.head?, Text.isIndent x = false := by
  have htabs : leading line = List.replicate (leading line).length '\t' := by
    refine List.eq_replicate_iff.mpr ⟨rfl, fun c hc => ?_⟩
    have hindent : Text.isIndent c = true := List.mem_takeWhile_imp hc
    have hspace : c ≠ ' ' := fun heq => h (heq ▸ hc)
    simpa [Text.isIndent, hspace] using hindent
  refine ⟨(leading line).length, content line, ?_, head_content line⟩
  rw [← htabs, leading_append_content]

section

variable {rest : Text} (hrest : ∀ x ∈ rest.head?, Text.isIndent x = false)

include hrest

private theorem leading_replicate {c : Char} (hc : Text.isIndent c = true) (k : Nat) :
    leading (List.replicate k c ++ rest) = List.replicate k c :=
  (span_replicate hc k hrest).1

private theorem spacedLine_tabs (n k : Nat) :
    spacedLine n (List.replicate k '\t' ++ rest) = List.replicate (n * k) ' ' ++ rest := by
  have hstop : ∀ x ∈ rest.head?, (x == '\t') = false := fun x hx =>
    (Bool.or_eq_false_iff.mp (hrest x hx)).2
  obtain ⟨htake, hdrop⟩ := span_replicate (p := (· == '\t')) (beq_self_eq_true '\t') k hstop
  rw [spacedLine, htake, hdrop, List.length_replicate]

/-- As many tabs come back from their spaces as there were. -/
theorem tabLine_spaces {n : Nat} (hn : 0 < n) (k : Nat) :
    tabLine n (List.replicate (n * k) ' ' ++ rest) = List.replicate k '\t' ++ rest := by
  have hlead := leading_replicate hrest (show Text.isIndent ' ' = true from rfl) (n * k)
  cases k with
  | zero =>
    apply tabLine_of_tabbed
    rw [hlead]
    exact List.not_mem_nil
  | succ k =>
    have hspaces : n * (k + 1) ≠ 0 := Nat.mul_ne_zero (by omega) (by omega)
    have htabs : (List.replicate (n * (k + 1)) ' ').count '\t' = 0 := by
      simp [List.count_replicate]
    have hdrop : (List.replicate (n * (k + 1)) ' ' ++ rest).drop
        (List.replicate (n * (k + 1)) ' ').length = rest := List.drop_left
    simp only [tabLine, hlead, htabs, hdrop, List.count_replicate_self,
      Nat.mul_div_cancel_left _ hn, Nat.zero_add]
    simp [hspaces]

/-- Once a line is spaced, the search for the number of spaces stops at it exactly if it is indented
and not blank. -/
theorem indentSize_spaces {n : Nat} (hn : 0 < n) (k : Nat) (lines : List Text) :
    indentSize ((List.replicate (n * k) ' ' ++ rest) :: lines) =
      if isIndented (List.replicate k '\t' ++ rest) then n * k else indentSize lines := by
  have hblank {c : Char} (hc : Text.isBlank c = true) (m : Nat) :
      Text.isBlankText (List.replicate m c ++ rest) = Text.isBlankText rest := by
    simp [Text.isBlankText, hc]
  have hstart : Text.startsWith " " (List.replicate (n * k) ' ' ++ rest) =
      !(List.replicate k '\t').isEmpty := by
    cases k with
    | zero =>
      cases rest with
      | nil => rfl
      | cons x rest =>
        have hx : x ≠ ' ' := by
          rintro rfl
          exact absurd (hrest ' ' rfl) (by decide)
        simp [Text.startsWith, List.isPrefixOf, Ne.symm hx]
    | succ k =>
      obtain ⟨m, hm⟩ : ∃ m, n * (k + 1) = m + 1 :=
        Nat.exists_eq_succ_of_ne_zero (Nat.mul_ne_zero (by omega) (by omega))
      simp [hm, List.replicate_succ, Text.startsWith, List.isPrefixOf]
  have hstop : ∀ x ∈ rest.head?, (x == ' ') = false := fun x hx =>
    (Bool.or_eq_false_iff.mp (hrest x hx)).1
  rw [indentSize, isIndented, leading_replicate hrest (show Text.isIndent '\t' = true from rfl),
    hblank (show Text.isBlank ' ' = true from rfl), hblank (show Text.isBlank '\t' = true from rfl),
    hstart, (span_replicate (p := (· == ' ')) (beq_self_eq_true ' ') (n * k) hstop).1,
    List.length_replicate]

end

/-- Spaces for tabs are undone line by line. -/
theorem tabLine_spacedLine {n : Nat} (hn : 0 < n) {line : Text} (h : ' ' ∉ leading line) :
    tabLine n (spacedLine n line) = line := by
  obtain ⟨k, rest, rfl, hrest⟩ := exists_tabs h
  rw [spacedLine_tabs hrest, tabLine_spaces hrest hn]

/-- The number of spaces for a tab is found from the first line that shows it. -/
theorem indentSize_spaced {n : Nat} (hn : 0 < n) {lines : List Text}
    (hspace : ∀ line ∈ lines, ' ' ∉ leading line)
    (hfirst : (lines.find? isIndented).map leading = some ['\t']) :
    indentSize (lines.map (spacedLine n)) = n := by
  induction lines with
  | nil => cases hfirst
  | cons line lines ih =>
    obtain ⟨k, rest, rfl, hrest⟩ := exists_tabs (hspace line List.mem_cons_self)
    rw [List.map_cons, spacedLine_tabs hrest, indentSize_spaces hrest hn]
    rw [List.find?_cons] at hfirst
    split
    · next hindented =>
      rw [hindented, Option.map_some,
        leading_replicate hrest (show Text.isIndent '\t' = true from rfl)] at hfirst
      have hk : k = 1 := by
        simpa using congrArg List.length (Option.some.inj hfirst)
      rw [hk, Nat.mul_one]
    · next hindented =>
      rw [Bool.eq_false_iff.mpr hindented] at hfirst
      exact ih (fun l hl => hspace l (List.mem_cons_of_mem _ hl)) hfirst

/-- Whatever a line begins with, no leading space is left of it. -/
theorem not_mem_leading_tabLine (size : Nat) (line : Text) : ' ' ∉ leading (tabLine size line) := by
  by_cases h : ' ' ∈ leading line
  · have hdrop : line.drop (leading line).length = content line := by
      calc line.drop (leading line).length
          = (leading line ++ content line).drop (leading line).length := by
            rw [leading_append_content]
        _ = content line := List.drop_left
    simp only [tabLine, List.contains_iff_mem, if_pos h, hdrop,
      leading_replicate (head_content line) (show Text.isIndent '\t' = true from rfl)]
    intro hmem
    cases List.eq_of_mem_replicate hmem
  · rwa [tabLine_of_tabbed h]

/-! ### Whole sources -/

/-- Carriage returns before line feeds are undone. -/
theorem dropReturns_withReturns {t : Text} (h : '\r' ∉ t) : dropReturns (withReturns t) = t := by
  induction t with
  | nil => rfl
  | cons c t ih =>
    rw [List.mem_cons, not_or] at h
    have hcons : withReturns (c :: t) = (if c = '\n' then ['\r', '\n'] else [c]) ++ withReturns t :=
      rfl
    rw [hcons]
    split
    · next hc =>
      subst hc
      simp [dropReturns, Text.startsWith, List.isPrefixOf, ih h.2]
    · rw [List.singleton_append, dropReturns, if_neg fun hc => h.1 hc.1.symm, ih h.2]

/-- Nothing but spaces and tabs comes into a line. -/
def OnlyIndents (f : Text → Text) : Prop :=
  ∀ line, ∀ c ∈ f line, c ∈ line ∨ Text.isIndent c = true

private theorem onlyIndents_spacedLine (n : Nat) : OnlyIndents (spacedLine n) := by
  intro line c hc
  rw [spacedLine, List.mem_append] at hc
  rcases hc with hc | hc
  · exact Or.inr (by rw [List.eq_of_mem_replicate hc]; rfl)
  · exact Or.inl ((List.dropWhile_sublist _).subset hc)

/-- Writing tabs for spaces changes only the indentation. -/
theorem onlyIndents_tabLine (size : Nat) : OnlyIndents (tabLine size) := by
  intro line c hc
  simp only [tabLine] at hc
  split at hc
  · rw [List.mem_append] at hc
    rcases hc with hc | hc
    · exact Or.inr (by rw [List.eq_of_mem_replicate hc]; rfl)
    · exact Or.inl (List.mem_of_mem_drop hc)
  · exact Or.inl hc

section

variable {source : Text} {f : Text → Text} (hf : OnlyIndents f) (hreturn : '\r' ∉ source)

include hf hreturn

/-- The lines that come of it have no line ends in them. -/
theorem OnlyIndents.not_mem {line : Text} (hline : line ∈ (Text.split '\n' source).map f) :
    '\n' ∉ line ∧ '\r' ∉ line := by
  obtain ⟨written, hwritten, rfl⟩ := List.mem_map.mp hline
  constructor
  · intro hc
    exact Text.not_mem_of_mem_split hwritten ((hf written _ hc).resolve_right (by decide))
  · intro hc
    refine hreturn (Text.mem_of_mem_split hwritten ?_)
    exact (hf written _ hc).resolve_right (by decide)

private theorem OnlyIndents.not_mem_join :
    '\r' ∉ Text.join "\n" ((Text.split '\n' source).map f) := by
  intro hmem
  rcases Text.mem_of_mem_join hmem with hc | ⟨line, hline, hc⟩
  · cases hc
  · exact (hf.not_mem hreturn hline).2 hc

/-- Lines that were only indented in another way are the lines of the new source. -/
theorem OnlyIndents.sourceLines_join :
    sourceLines (Text.join "\n" ((Text.split '\n' source).map f)) =
      (Text.split '\n' source).map f := by
  rw [sourceLines, dropReturns_eq_self (hf.not_mem_join hreturn)]
  refine Text.split_join ?_ fun line hline => (hf.not_mem hreturn hline).1
  simpa using Text.split_ne_nil '\n' source

end

/-- A source whose lines have no leading spaces is its own code. -/
theorem normalizeIndentation_of_tabbed {source : Text}
    (h : ∀ line ∈ sourceLines source, ' ' ∉ leading line) :
    normalizeIndentation source = Text.join "\n" (sourceLines source) := by
  rw [normalizeIndentation]
  refine congrArg _ ((List.map_congr_left fun line hline => ?_).trans (List.map_id _))
  exact tabLine_of_tabbed (h line hline) _

/-- There is nothing to be changed of such a source. -/
theorem Tabbed.normalizeIndentation_eq {source : Text} (h : Tabbed source) :
    normalizeIndentation source = source := by
  have hlines : sourceLines source = Text.split '\n' source := by
    rw [sourceLines, dropReturns_eq_self h.no_return]
  rw [normalizeIndentation_of_tabbed (hlines ▸ h.no_space), hlines]
  exact Text.join_split source

/-- Bringing the indentation of a source into tabs leaves nothing to bring into tabs. -/
theorem normalizeIndentation_idem {source : Text} (h : '\r' ∉ source) :
    normalizeIndentation (normalizeIndentation source) = normalizeIndentation source := by
  have hlines := (onlyIndents_tabLine (indentSize (Text.split '\n' source))).sourceLines_join h
  have hcode : normalizeIndentation source = Text.join "\n"
      ((Text.split '\n' source).map (tabLine (indentSize (Text.split '\n' source)))) := by
    rw [normalizeIndentation, sourceLines, dropReturns_eq_self h]
  rw [hcode, normalizeIndentation_of_tabbed, hlines]
  rw [hlines]
  intro line hline
  obtain ⟨written, -, rfl⟩ := List.mem_map.mp hline
  exact not_mem_leading_tabLine _ written

namespace TabIndented

variable {source : Text} (h : TabIndented source)

include h

/-- Spaces for tabs are undone. -/
theorem normalizeIndentation_spaced {n : Nat} (hn : 0 < n) :
    normalizeIndentation (spaced n source) = source := by
  have hlines : sourceLines (spaced n source) = (Text.split '\n' source).map (spacedLine n) :=
    (onlyIndents_spacedLine n).sourceLines_join h.no_return
  have hback : ((Text.split '\n' source).map (spacedLine n)).map (tabLine n) =
      Text.split '\n' source := by
    rw [List.map_map]
    refine (List.map_congr_left fun line hline => ?_).trans (List.map_id _)
    exact tabLine_spacedLine hn (h.no_space line hline)
  rw [normalizeIndentation, hlines, indentSize_spaced hn h.no_space h.first, hback]
  exact Text.join_split source

/-- So are carriage returns before the line feeds. -/
theorem normalizeIndentation_withReturns {n : Nat} (hn : 0 < n) :
    normalizeIndentation (withReturns (spaced n source)) = source := by
  have hreturn : '\r' ∉ spaced n source := (onlyIndents_spacedLine n).not_mem_join h.no_return
  have hlines : sourceLines (withReturns (spaced n source)) = sourceLines (spaced n source) := by
    rw [sourceLines, dropReturns_withReturns hreturn, sourceLines, dropReturns_eq_self hreturn]
  calc normalizeIndentation (withReturns (spaced n source))
      = normalizeIndentation (spaced n source) := by
        rw [normalizeIndentation, normalizeIndentation, hlines]
    _ = source := h.normalizeIndentation_spaced hn

end TabIndented

/-- Two sources with the same code are read alike. -/
theorem readFrom_congr {source source' : Text}
    (h : normalizeIndentation source' = normalizeIndentation source) (o : Options)
    (indent start : Nat) : readFrom source' o indent start = readFrom source o indent start := by
  have hcode : codeOf source' = codeOf source := congrArg (· ++ "\n".toList) h
  rw [readFrom, readFrom, hcode]

/-- For an outline that is indented with tabs, neither any number of spaces in place of each tab nor
carriage returns before its line feeds make a difference: the same code comes of it, and what is
read, where reading stops and what is found wrong are the same for all options and from every place.
And bringing the indentation of a source into tabs a second time changes nothing. -/
theorem indentation_style_immaterial :
    (∀ (source : Text) (n : Nat), TabIndented source → 0 < n →
      ∀ source' ∈ [spaced n source, withReturns (spaced n source)],
        normalizeIndentation source' = source ∧
          ∀ (o : Options) (indent start : Nat),
            readFrom source' o indent start = readFrom source o indent start) ∧
    ∀ source : Text, '\r' ∉ source →
      normalizeIndentation (normalizeIndentation source) = normalizeIndentation source := by
  refine ⟨?_, fun source h => normalizeIndentation_idem h⟩
  intro source n h hn source' hsource'
  have hcode : normalizeIndentation source' = source := by
    simp only [List.mem_cons, List.not_mem_nil, or_false] at hsource'
    rcases hsource' with rfl | rfl
    · exact h.normalizeIndentation_spaced hn
    · exact h.normalizeIndentation_withReturns hn
  exact ⟨hcode, readFrom_congr (hcode.trans h.normalizeIndentation_eq.symm)⟩

/-- Three spaces for a tab, a blank line of spaces among them, and carriage returns. -/
theorem indentation_style_immaterial_at_list :
    TabIndented "ul\n\t\t\n\tli.\n\t\t\ta  b\n\n\tli\n\t\tb x" ∧
      withReturns (spaced 3 "ul\n\t\t\n\tli.\n\t\t\ta  b\n\n\tli\n\t\tb x") =
        "ul\r\n      \r\n   li.\r\n         a  b\r\n\r\n   li\r\n      b x".toList ∧
      normalizeIndentation
          "ul\r\n      \r\n   li.\r\n         a  b\r\n\r\n   li\r\n      b x" =
        "ul\n\t\t\n\tli.\n\t\t\ta  b\n\n\tli\n\t\tb x".toList := by
  have h : TabIndented "ul\n\t\t\n\tli.\n\t\t\ta  b\n\n\tli\n\t\tb x" :=
    ⟨⟨by decide, by decide⟩, by decide⟩
  have hspelled : withReturns (spaced 3 "ul\n\t\t\n\tli.\n\t\t\ta  b\n\n\tli\n\t\tb x") =
      "ul\r\n      \r\n   li.\r\n         a  b\r\n\r\n   li\r\n      b x".toList := by
    decide
  have hcode := (indentation_style_immaterial.1 _ 3 h (by decide) _
    (List.mem_cons_of_mem _ List.mem_cons_self)).1
  rw [hspelled] at hcode
  exact ⟨h, hspelled, hcode⟩

end OutlinePage.Outline
