import Mathlib.Data.List.DropRight
import Mathlib.Data.List.Forall2
import OutlinePage.Proofs.Crawling
import OutlinePage.Proofs.DirectWriting
import OutlinePage.Proofs.OpaqueBlocks
import OutlinePage.Proofs.Scopes

/-!
# Prose does not see how deep it stands

The lines of a text after its first one carry the indentation of the outline. Tabs put in front of
all of them leave no trace in what the converter from Markdown is given, so a block of text is the
same prose at every depth, as long as its lines are moved along with its tag.
-/

namespace OutlinePage

namespace Text

/-- A line with the given number of tabs put in front of it; lines made of spaces and tabs only may
become any such line. -/
inductive MovedBy (k : Nat) : Text → Text → Prop where
  | line {line : Text} (oneLine : '\n' ∉ line) : MovedBy k line (List.replicate k '\t' ++ line)
  | empty {line line' : Text} (indent : line.all isIndent = true)
    (indent' : line'.all isIndent = true) : MovedBy k line line'

/-- Lines, each after a line feed. -/
def below (lines : List Text) : Text := lines.flatMap ('\n' :: ·)

/-- A text, and the same text with all lines but the first moved. -/
inductive Shifted (k : Nat) : Text → Text → Prop where
  | intro {first : Text} {lines lines' : List Text} (oneLine : '\n' ∉ first)
    (moved : List.Forall₂ (MovedBy k) lines lines') :
    Shifted k (first ++ below lines) (first ++ below lines')

/-! ### Lines below a first line -/

/-- Below no lines there is nothing. -/
@[simp] theorem below_nil : below [] = [] := rfl

/-- Each line comes after a line feed. -/
@[simp] theorem below_cons (line : Text) (lines : List Text) :
    below (line :: lines) = '\n' :: (line ++ below lines) := rfl

private theorem below_append (lines others : List Text) :
    below (lines ++ others) = below lines ++ below others :=
  List.flatMap_append

private theorem join_newline (first : Text) (lines : List Text) :
    join "\n" (first :: lines) = first ++ below lines := by
  induction lines generalizing first with
  | nil => simp [join]
  | cons line lines ih =>
    rw [join, ih line, below_cons, List.append_assoc]
    rfl

private theorem split_below {first : Text} {lines : List Text} (hfirst : '\n' ∉ first)
    (hlines : ∀ line ∈ lines, '\n' ∉ line) :
    split '\n' (first ++ below lines) = first :: lines := by
  rw [← join_newline]
  exact split_join (List.cons_ne_nil first lines) (List.forall_mem_cons.mpr ⟨hfirst, hlines⟩)

/-- Every text is a first line with lines below it. -/
theorem exists_below (t : Text) :
    ∃ first lines, t = first ++ below lines ∧ '\n' ∉ first ∧ ∀ line ∈ lines, '\n' ∉ line := by
  obtain ⟨first, lines, hsplit⟩ := List.exists_cons_of_ne_nil (split_ne_nil '\n' t)
  have hmem : ∀ line ∈ first :: lines, '\n' ∉ line := fun line hline =>
    not_mem_of_mem_split (hsplit ▸ hline)
  have hjoin : join "\n" (split '\n' t) = t := join_split t
  rw [hsplit, join_newline] at hjoin
  exact ⟨first, lines, hjoin.symm, List.forall_mem_cons.mp hmem⟩

private theorem indented_below (k : Nat) {first : Text} {lines : List Text} (hfirst : '\n' ∉ first)
    (hlines : ∀ line ∈ lines, '\n' ∉ line) :
    indented k (first ++ below lines) =
      first ++ below (lines.map (List.replicate k '\t' ++ ·)) := by
  rw [indented_append, indented_of_not_mem hfirst]
  congr 1
  induction lines with
  | nil => rfl
  | cons line lines ih =>
    rw [List.forall_mem_cons] at hlines
    rw [below_cons, indented_newline, indented_append, indented_of_not_mem hlines.1, ih hlines.2]
    simp [lineBreak]

/-- Tabs in front of all lines but the first move these lines. -/
theorem shifted_indented (k : Nat) (t : Text) : Shifted k t (indented k t) := by
  obtain ⟨first, lines, rfl, hfirst, hlines⟩ := exists_below t
  rw [indented_below k hfirst hlines]
  refine ⟨hfirst, ?_⟩
  rw [List.forall₂_map_right_iff, List.forall₂_same]
  exact fun line hline => .line (hlines line hline)

/-! ### Moved lines -/

private theorem newline_not_mem_of_all {line : Text} (h : line.all isIndent = true) :
    '\n' ∉ line := by
  intro hmem
  cases List.all_eq_true.mp h '\n' hmem

private theorem isBlank_of_isIndent {c : Char} (h : isIndent c = true) : isBlank c = true := by
  rw [isIndent, Bool.or_eq_true, beq_iff_eq, beq_iff_eq] at h
  rcases h with rfl | rfl <;> decide

private theorem isBlankText_of_all {line : Text} (h : line.all isIndent = true) :
    isBlankText line = true :=
  List.all_eq_true.mpr fun c hc => isBlank_of_isIndent (List.all_eq_true.mp h c hc)

private theorem all_isIndent_tabs (k : Nat) : (List.replicate k '\t').all isIndent = true := by
  simp [isIndent]

namespace MovedBy

variable {k : Nat} {line line' : Text}

private theorem oneLine (h : MovedBy k line line') : '\n' ∉ line ∧ '\n' ∉ line' := by
  cases h with
  | line hline =>
    refine ⟨hline, fun hmem => ?_⟩
    rcases List.mem_append.mp hmem with hmem | hmem
    · cases List.eq_of_mem_replicate hmem
    · exact hline hmem
  | empty hindent hindent' =>
    exact ⟨newline_not_mem_of_all hindent, newline_not_mem_of_all hindent'⟩

private theorem all_isIndent_eq (h : MovedBy k line line') :
    line'.all isIndent = line.all isIndent := by
  cases h with
  | line _ => rw [List.all_append, all_isIndent_tabs, Bool.true_and]
  | empty hindent hindent' => rw [hindent, hindent']

private theorem isBlankText_eq (h : MovedBy k line line') :
    isBlankText line' = isBlankText line := by
  cases h with
  | line _ =>
    rw [isBlankText, List.all_append]
    exact (congrArg (· && _) (isBlankText_of_all (all_isIndent_tabs k))).trans (Bool.true_and _)
  | empty hindent hindent' => rw [isBlankText_of_all hindent, isBlankText_of_all hindent']

/-- Without the white space that they begin with the two lines are the same. -/
theorem trimStart_eq (h : MovedBy k line line') :
    trimStart isBlank line' = trimStart isBlank line := by
  cases h with
  | line _ =>
    refine List.dropWhile_append_of_pos fun c hc => ?_
    exact isBlank_of_isIndent (List.all_eq_true.mp (all_isIndent_tabs k) c hc)
  | empty hindent hindent' =>
    have hnil {line : Text} (h : line.all isIndent = true) : trimStart isBlank line = [] :=
      List.dropWhile_eq_nil_iff.mpr (List.all_eq_true.mp (isBlankText_of_all h))
    rw [hnil hindent, hnil hindent']

end MovedBy

private theorem forall_oneLine {k : Nat} {lines lines' : List Text}
    (h : List.Forall₂ (MovedBy k) lines lines') :
    (∀ line ∈ lines, '\n' ∉ line) ∧ ∀ line ∈ lines', '\n' ∉ line := by
  induction h with
  | nil => exact ⟨by simp, by simp⟩
  | cons hline _ ih =>
    rw [List.forall_mem_cons, List.forall_mem_cons]
    exact ⟨⟨hline.oneLine.1, ih.1⟩, ⟨hline.oneLine.2, ih.2⟩⟩

/-! ### The common indentation -/

/-- The line, or nothing of it if it is made of spaces and tabs. -/
def cleared (line : Text) : Text := if line.all isIndent then [] else line

/-- The indentation that all lines with something in them share. -/
def margin (lines : List Text) : Text :=
  match (lines.filter (!·.isEmpty)).map (·.takeWhile isIndent) with
  | [] => []
  | m :: ms => ms.foldl commonStart m

/-- The lines without the indentation that they share. -/
def withoutMargin (lines : List Text) : List Text := lines.map (·.drop (margin lines).length)

/-- The tabs in front of a line with something in it. -/
def pushed (k : Nat) (line : Text) : Text :=
  if line.isEmpty then [] else List.replicate k '\t' ++ line

private theorem dedent_eq (t : Text) :
    dedent t = join "\n" (withoutMargin ((split '\n' t).map cleared)) := rfl

private theorem commonStart_append (p s t : Text) :
    commonStart (p ++ s) (p ++ t) = p ++ commonStart s t := by
  induction p with
  | nil => rfl
  | cons c p ih => rw [List.cons_append, List.cons_append, commonStart, if_pos rfl, ih]; rfl

private theorem foldl_commonStart_append (p m : Text) (ms : List Text) :
    (ms.map (p ++ ·)).foldl commonStart (p ++ m) = p ++ ms.foldl commonStart m := by
  induction ms generalizing m with
  | nil => rfl
  | cons n ms ih => rw [List.map_cons, List.foldl_cons, commonStart_append, ih, List.foldl_cons]

private theorem filter_pushed (k : Nat) (lines : List Text) :
    (lines.map (pushed k)).filter (!·.isEmpty) =
      (lines.filter (!·.isEmpty)).map (List.replicate k '\t' ++ ·) := by
  induction lines with
  | nil => rfl
  | cons line lines ih => cases line <;> simp [pushed, ih]

/-- The tabs in front of the lines become part of what they share. -/
theorem margin_pushed (k : Nat) {lines : List Text} (h : lines.filter (!·.isEmpty) ≠ []) :
    margin (lines.map (pushed k)) = List.replicate k '\t' ++ margin lines := by
  have htabs : ∀ c ∈ List.replicate k '\t', isIndent c = true :=
    List.all_eq_true.mp (all_isIndent_tabs k)
  obtain ⟨line, others, hlines⟩ := List.exists_cons_of_ne_nil h
  rw [margin, filter_pushed, List.map_map, hlines, margin, hlines]
  have hspan : (fun line : Text => line.takeWhile isIndent) ∘ (List.replicate k '\t' ++ ·) =
      (List.replicate k '\t' ++ ·) ∘ (·.takeWhile isIndent) :=
    funext fun line => List.takeWhile_append_of_pos htabs
  rw [hspan, ← List.map_map, List.map_cons, List.map_cons]
  exact foldl_commonStart_append _ _ _

/-- The tabs are taken off again with what the lines share. -/
theorem withoutMargin_pushed (k : Nat) (lines : List Text) :
    withoutMargin (lines.map (pushed k)) = withoutMargin lines := by
  rw [withoutMargin, withoutMargin, List.map_map]
  refine List.map_congr_left fun line hline => ?_
  rw [Function.comp_apply, pushed]
  cases line with
  | nil => simp
  | cons c line =>
    have hmem : c :: line ∈ lines.filter (!·.isEmpty) := List.mem_filter.mpr ⟨hline, rfl⟩
    rw [margin_pushed k (List.ne_nil_of_mem hmem), List.length_append]
    exact List.drop_length_add_append _

private theorem MovedBy.cleared_eq {k : Nat} {line line' : Text} (h : MovedBy k line line') :
    cleared line' = pushed k (cleared line) := by
  rw [cleared, cleared, h.all_isIndent_eq]
  by_cases hall : line.all isIndent = true
  · rw [if_pos hall, if_pos hall]
    rfl
  · rw [if_neg hall, if_neg hall]
    cases h with
    | line _ =>
      have hne : line.isEmpty = false := by
        cases line with
        | nil => exact absurd rfl hall
        | cons c line => rfl
      rw [pushed, hne]
      rfl
    | empty hindent _ => exact absurd hindent hall

private theorem map_cleared {k : Nat} {lines lines' : List Text}
    (h : List.Forall₂ (MovedBy k) lines lines') :
    lines'.map cleared = (lines.map cleared).map (pushed k) := by
  induction h with
  | nil => rfl
  | cons hline _ ih => rw [List.map_cons, List.map_cons, List.map_cons, hline.cleared_eq, ih]

/-- Moved lines are the same lines without the indentation that they share. -/
theorem dedent_moved {k : Nat} {line line' : Text} {lines lines' : List Text}
    (h : List.Forall₂ (MovedBy k) (line :: lines) (line' :: lines')) :
    dedent (line' ++ below lines') = dedent (line ++ below lines) := by
  obtain ⟨hlines, hlines'⟩ := forall_oneLine h
  rw [List.forall_mem_cons] at hlines hlines'
  rw [dedent_eq, dedent_eq, split_below hlines.1 hlines.2, split_below hlines'.1 hlines'.2,
    map_cleared h, withoutMargin_pushed]

private theorem cut_below {first : Text} (h : '\n' ∉ first) (line : Text) (lines : List Text) :
    cut '\n' (first ++ below (line :: lines)) = (first, some (line ++ below lines)) := by
  have hinside : ∀ c ∈ first, (c != '\n') = true := fun c hc =>
    bne_iff_ne.mpr fun heq => h (heq ▸ hc)
  rw [cut, below_cons, List.dropWhile_append_of_pos hinside, List.takeWhile_append_of_pos hinside]
  simp

namespace Shifted

variable {k : Nat} {t t' : Text}

private theorem prepare_eq (h : Shifted k t t') : Prose.prepare t' = Prose.prepare t := by
  obtain ⟨hfirst, hmoved⟩ := h
  cases hmoved with
  | nil => rfl
  | cons hline hothers =>
    rw [Prose.prepare, Prose.prepare, cut_below hfirst, cut_below hfirst]
    exact congrArg _ (dedent_moved (.cons hline hothers))

private theorem eq_nil_iff (h : Shifted k t t') : t' = [] ↔ t = [] := by
  obtain ⟨hfirst, hmoved⟩ := h
  cases hmoved with
  | nil => rfl
  | cons _ _ => simp

end Shifted

/-! ### White space at the ends -/

private theorem trimEnd_append_of_eq_nil {p : Char → Bool} (s : Text) {t : Text}
    (h : trimEnd p t = []) :
    trimEnd p (s ++ t) = trimEnd p s := by
  rw [trimEnd, List.reverse_eq_nil_iff] at h
  rw [trimEnd, List.reverse_append, List.dropWhile_append, h]
  rfl

private theorem trimEnd_append_of_ne_nil {p : Char → Bool} (s : Text) {t : Text}
    (h : trimEnd p t ≠ []) :
    trimEnd p (s ++ t) = s ++ trimEnd p t := by
  rw [trimEnd, ne_eq, List.reverse_eq_nil_iff] at h
  rw [trimEnd, List.reverse_append, List.dropWhile_append, if_neg (by simpa using h)]
  simp [trimEnd]

private theorem trimEnd_eq_nil {p : Char → Bool} {t : Text} : trimEnd p t = [] ↔ t.all p = true :=
  List.rdropWhile_eq_nil_iff.trans List.all_eq_true.symm

private theorem trimEnd_subset (p : Char → Bool) (t : Text) : trimEnd p t ⊆ t :=
  (List.rdropWhile_prefix p t).subset

/-- White space after a text is taken off with the rest of the white space at its end. -/
theorem strip_append_blank (t : Text) {blank : Text} (h : isBlankText blank = true) :
    strip (t ++ blank) = strip t := by
  have hstart : trimStart isBlank blank = [] :=
    List.dropWhile_eq_nil_iff.mpr (List.all_eq_true.mp h)
  rw [strip, strip, trimStart, List.dropWhile_append]
  by_cases ht : t.dropWhile isBlank = []
  · rw [trimStart] at hstart ⊢
    simp [ht, hstart]
  · rw [if_neg (by simpa using ht), trimEnd_append_of_eq_nil _ (trimEnd_eq_nil.mpr h)]
    rfl

private theorem isBlankText_below {lines : List Text}
    (h : ∀ line ∈ lines, isBlankText line = true) :
    isBlankText (below lines) = true := by
  refine List.all_eq_true.mpr fun c hc => ?_
  obtain ⟨line, hline, hmem⟩ := List.mem_flatMap.mp hc
  rcases List.mem_cons.mp hmem with rfl | hmem
  · decide
  · exact List.all_eq_true.mp (h line hline) c hmem

/-- Where the text begins further down, it begins in the same way. -/
theorem shifted_trimStart {k : Nat} {lines lines' : List Text}
    (h : List.Forall₂ (MovedBy k) lines lines') :
    ∀ {first first' : Text}, '\n' ∉ first →
      trimStart isBlank first' = trimStart isBlank first →
      Shifted k (trimStart isBlank (first ++ below lines))
        (trimStart isBlank (first' ++ below lines')) := by
  induction h with
  | nil =>
    intro first first' hfirst heq
    rw [below_nil, List.append_nil, List.append_nil, heq]
    have hmem : '\n' ∉ trimStart isBlank first := fun hc =>
      hfirst ((List.dropWhile_suffix _).subset hc)
    simpa using Shifted.intro (k := k) hmem .nil
  | @cons line line' lines lines' hline hothers ih =>
    intro first first' hfirst heq
    rw [trimStart, trimStart] at heq
    rw [trimStart, trimStart, List.dropWhile_append, List.dropWhile_append, heq]
    split
    · -- All of the first line is white space. The next one may begin with other tabs.
      have hnewline : isBlank '\n' = true := by decide
      rw [below_cons, below_cons, List.dropWhile_cons_of_pos hnewline,
        List.dropWhile_cons_of_pos hnewline]
      exact ih hline.oneLine.1 hline.trimStart_eq
    · exact ⟨fun hc => hfirst ((List.dropWhile_suffix _).subset hc), .cons hline hothers⟩

/-- A line that is not blank is moved along with its end. -/
theorem MovedBy.trimEnd {k : Nat} {line line' : Text} (h : MovedBy k line line')
    (hblank : ¬isBlankText line = true) :
    MovedBy k (trimEnd isBlank line) (trimEnd isBlank line') := by
  cases h with
  | line hline =>
    rw [trimEnd_append_of_ne_nil _ (mt trimEnd_eq_nil.mp hblank)]
    exact .line fun hc => hline (trimEnd_subset _ _ hc)
  | empty hindent _ => exact absurd (isBlankText_of_all hindent) hblank

/-- White space at the end takes whole lines away, and the end of the last one that stays. -/
theorem exists_trimEnd_below {k : Nat} {lines lines' : List Text}
    (h : List.Forall₂ (MovedBy k) lines lines') :
    ∃ kept kept', List.Forall₂ (MovedBy k) kept kept' ∧
      trimEnd isBlank (below lines) = below kept ∧
      trimEnd isBlank (below lines') = below kept' := by
  induction h with
  | nil => exact ⟨[], [], .nil, rfl, rfl⟩
  | @cons line line' lines lines' hline _ ih =>
    obtain ⟨kept, kept', hkept, heq, heq'⟩ := ih
    have hcons (line : Text) (lines : List Text) :
        below (line :: lines) = ['\n'] ++ line ++ below lines := rfl
    rw [hcons, hcons]
    cases hkept with
    | @cons next next' others others' hnext hothers =>
      -- Something stays of the lines below, so this line stays whole.
      rw [trimEnd_append_of_ne_nil _ (by simp [heq]), trimEnd_append_of_ne_nil _ (by simp [heq']),
        heq, heq']
      exact ⟨line :: next :: others, line' :: next' :: others',
        .cons hline (.cons hnext hothers), rfl, rfl⟩
    | nil =>
      rw [trimEnd_append_of_eq_nil _ heq, trimEnd_append_of_eq_nil _ heq']
      by_cases hblank : isBlankText line = true
      · have hblank' := hline.isBlankText_eq.trans hblank
        rw [trimEnd_append_of_eq_nil _ (trimEnd_eq_nil.mpr hblank),
          trimEnd_append_of_eq_nil _ (trimEnd_eq_nil.mpr hblank')]
        exact ⟨[], [], .nil, rfl, rfl⟩
      · have hblank' := hline.isBlankText_eq ▸ hblank
        rw [trimEnd_append_of_ne_nil _ (mt trimEnd_eq_nil.mp hblank),
          trimEnd_append_of_ne_nil _ (mt trimEnd_eq_nil.mp hblank')]
        exact ⟨[_], [_], .cons (hline.trimEnd hblank) .nil, by simp, by simp⟩

namespace Shifted

variable {k : Nat} {t t' : Text}

private theorem trimEnd (h : Shifted k t t') :
    Shifted k (trimEnd isBlank t) (trimEnd isBlank t') := by
  obtain ⟨hfirst, hmoved⟩ := h
  obtain ⟨kept, kept', hkept, heq, heq'⟩ := exists_trimEnd_below hmoved
  cases hkept with
  | nil =>
    rw [trimEnd_append_of_eq_nil _ heq, trimEnd_append_of_eq_nil _ heq']
    simpa using Shifted.intro (k := k) (fun hc => hfirst (trimEnd_subset _ _ hc)) .nil
  | cons hline hothers =>
    rw [trimEnd_append_of_ne_nil _ (by simp [heq]), trimEnd_append_of_ne_nil _ (by simp [heq']),
      heq, heq']
    exact ⟨hfirst, .cons hline hothers⟩

/-- The texts are still moved copies when the white space at their ends is gone. -/
theorem strip (h : Shifted k t t') : Shifted k (strip t) (strip t') := by
  obtain ⟨hfirst, hmoved⟩ := h
  exact (shifted_trimStart hmoved hfirst rfl).trimEnd

end Shifted

/-! ### References -/

open Variables

/-- The references of a text are those of its lines. -/
theorem references_below (first : Text) (lines : List Text) :
    references (first ++ below lines) = references first ++ lines.flatMap references := by
  induction lines generalizing first with
  | nil => simp
  | cons line lines ih =>
    rw [below_cons, references_append_newline, ih, List.flatMap_cons]

private theorem MovedBy.references_eq {k : Nat} {line line' : Text} (h : MovedBy k line line') :
    references line' = references line := by
  cases h with
  | line _ => exact references_indent (all_isIndent_tabs k) line
  | empty hindent hindent' =>
    have hnone {line : Text} (h : line.all isIndent = true) : references line = [] := by
      simpa [references_nil] using references_indent h []
    rw [hnone hindent, hnone hindent']

private theorem Shifted.references_eq {k : Nat} {t t' : Text} (h : Shifted k t t') :
    references t' = references t := by
  obtain ⟨-, hmoved⟩ := h
  rw [references_below, references_below]
  congr 1
  induction hmoved with
  | nil => rfl
  | cons hline _ ih => rw [List.flatMap_cons, List.flatMap_cons, hline.references_eq, ih]

end Text

namespace Outline

open Page

/-! ### Blocks of text in outlines -/

/-- What stands after the modifiers of a tag, in the line in which they end. -/
def afterModifiers (code : Text) (tag : Tag) : Text :=
  match scanModifiers (afterName code tag) with
  | none => []
  | some (_, rest) => rest.takeWhile inLine

/-- The lines of a source below the modifiers of a tag at the given depth that make up its block of
text, up to the last one that is not blank. -/
def bodyLines (source : Text) (depth : Nat) (tag : Tag) : List Text :=
  let lines := sourceLines source
  ((lines.drop (modifiersEnd (codeOf source) tag)).takeWhile
    fun line => isDeeper depth (tabLine (indentSize lines) line)).rdropWhile Text.isBlankText

/-- Reading the source gives an element at the given depth that has the tag and a block of text. -/
structure HasBlock (source : Text) (o : Options) (depth : Nat) (tag : Tag) : Prop where
  isBlock : tag.isBlock = true
  stands : ∃ elements e, read source o = .ok elements ∧ StandsAt depth e elements ∧ e.tag = tag

private theorem split_normalizeIndentation (source : Text) :
    Text.split '\n' (normalizeIndentation source) =
      (sourceLines source).map (tabLine (indentSize (sourceLines source))) := by
  refine Text.split_join ?_ fun line hline hc => ?_
  · rw [ne_eq, List.map_eq_nil_iff]
    exact Text.split_ne_nil '\n' _
  obtain ⟨written, hwritten, rfl⟩ := List.mem_map.mp hline
  rcases onlyIndents_tabLine _ written _ hc with hc | hc
  · exact Text.not_mem_of_mem_split hwritten hc
  · cases hc

private theorem blockLines_normalizeIndentation (source : Text) (depth number : Nat) :
    blockLines (normalizeIndentation source) depth number =
      (((sourceLines source).drop number).takeWhile fun line =>
        isDeeper depth (tabLine (indentSize (sourceLines source)) line)).map
          (tabLine (indentSize (sourceLines source))) := by
  rw [blockLines, split_normalizeIndentation, ← List.map_drop, List.takeWhile_map]
  rfl

private theorem isBlankText_tabLine (size : Nat) {line : Text} (h : Text.isBlankText line = true) :
    Text.isBlankText (tabLine size line) = true := by
  refine List.all_eq_true.mpr fun c hc => ?_
  rcases onlyIndents_tabLine size line c hc with hc | hc
  · exact List.all_eq_true.mp h c hc
  · exact Text.isBlank_of_isIndent hc

/-- Blank lines at the end of a block are taken off with the white space at its end. -/
theorem strip_bodyLines (first : Text) (size : Nat) (lines : List Text) :
    Text.strip (first ++ Text.below ((lines.rdropWhile Text.isBlankText).map (tabLine size))) =
      Text.strip (first ++ Text.below (lines.map (tabLine size))) := by
  have hblank : Text.isBlankText
      (Text.below ((lines.rtakeWhile Text.isBlankText).map (tabLine size))) = true := by
    refine Text.isBlankText_below fun line hline => ?_
    obtain ⟨written, hwritten, rfl⟩ := List.mem_map.mp hline
    exact isBlankText_tabLine size (List.mem_rtakeWhile_imp hwritten)
  have hlines : lines.rdropWhile Text.isBlankText ++ lines.rtakeWhile Text.isBlankText = lines :=
    List.rdropWhile_append_rtakeWhile
  nth_rewrite 2 [← hlines]
  rw [List.map_append, Text.below_append, ← List.append_assoc, Text.strip_append_blank _ hblank]

namespace HasBlock

variable {source : Text} {o : Options} {depth : Nat} {tag : Tag}

private theorem onWay (h : HasBlock source o depth tag) :
    ∃ first second before junk modifiers body after,
      afterModifiers (codeOf source) tag = body.takeWhile inLine ∧
      BlockOnWay source o depth tag first second before junk modifiers body after := by
  obtain ⟨elements, e, hread, hstands, rfl⟩ := h.stands
  obtain ⟨first, second, hflat⟩ := hstands.flatten_eq 0
  rw [Nat.zero_add] at hflat
  obtain ⟨before, junk, modifiers, body, after, hscan, hisBlock, hway⟩ :=
    exists_tagOnWay hread hflat
  refine ⟨first, _, before, junk, modifiers, body, after, ?_, hway (hisBlock ▸ h.isBlock)⟩
  rw [afterModifiers, hscan]
  exact takeWhile_append_stop inLine_newline body after

private theorem isVerbatim_eq (h : HasBlock source o depth tag) :
    tag.isVerbatim = Vocabulary.verbatimTags.contains tag.name := by
  obtain ⟨first, second, before, junk, modifiers, body, after, -, hway⟩ := h.onWay
  rw [hway.tag_eq]
  rfl

private theorem newline_not_mem (h : HasBlock source o depth tag) :
    '\n' ∉ afterModifiers (codeOf source) tag := by
  obtain ⟨first, second, before, junk, modifiers, body, after, hafter, -⟩ := h.onWay
  rw [hafter]
  exact fun hc => inLine_eq_true.mp (List.mem_takeWhile_imp hc) rfl

/-- The text of a block of text: the end of the line with the last modifiers, and the lines of the
source below it with their indentation in tabs. -/
theorem text_eq (h : HasBlock source o depth tag) :
    tag.text = textOf (Text.strip (afterModifiers (codeOf source) tag ++
      Text.below ((bodyLines source depth tag).map
        (tabLine (indentSize (sourceLines source)))))) := by
  obtain ⟨first, second, before, junk, modifiers, body, after, hafter, hway⟩ := h.onWay
  obtain ⟨later, hat⟩ := hway.spelled.blockAt_of_code hway.announces
    (show normalizeIndentation source ++ ['\n'] = _ from hway.code_eq)
  have hlines := hat.blockLines_eq fun c hc => List.mem_takeWhile_imp hc
  rw [← hway.modifiersEnd_eq, blockLines_normalizeIndentation] at hlines
  have hbody : body = body.takeWhile inLine ++ Text.below (Text.split '\n' body).tail := by
    rw [← Text.join_newline, ← split_newline]
    exact (Text.join_split body).symm
  have htext : tag.text = textOf (Text.strip body) := by
    rw [hway.tag_eq]
    exact hway.spelled.text_tagOf hway.announces o _ _
  rw [htext, hbody, ← hlines, ← hafter, bodyLines, strip_bodyLines]

end HasBlock

/-- A line without leading spaces stays a moved line when its indentation is brought into tabs. -/
theorem movedBy_tabLine {k : Nat} {line line' : Text} (h : Text.MovedBy k line line')
    (hspace : ' ' ∉ leading line) (size size' : Nat) :
    Text.MovedBy k (tabLine size line) (tabLine size' line') := by
  cases h with
  | line hline =>
    have hleading : leading (List.replicate k '\t' ++ line) =
        List.replicate k '\t' ++ leading line :=
      List.takeWhile_append_of_pos (List.all_eq_true.mp (Text.all_isIndent_tabs k))
    have hspace' : ' ' ∉ leading (List.replicate k '\t' ++ line) := by
      simp [hleading, hspace]
    rw [tabLine_of_tabbed hspace, tabLine_of_tabbed hspace']
    exact .line hline
  | empty hindent hindent' =>
    have hall (size : Nat) {line : Text} (h : line.all Text.isIndent = true) :
        (tabLine size line).all Text.isIndent = true :=
      List.all_eq_true.mpr fun c hc =>
        (onlyIndents_tabLine size line c hc).elim (List.all_eq_true.mp h c) id
    exact .empty (hall size hindent) (hall size' hindent')

private theorem forall₂_tabLine {k : Nat} {lines lines' : List Text}
    (h : List.Forall₂ (Text.MovedBy k) lines lines')
    (hspace : ∀ line ∈ lines, ' ' ∉ leading line) (size size' : Nat) :
    List.Forall₂ (Text.MovedBy k) (lines.map (tabLine size)) (lines'.map (tabLine size')) := by
  induction h with
  | nil => exact .nil
  | cons hline _ ih =>
    rw [List.forall_mem_cons] at hspace
    exact .cons (movedBy_tabLine hline hspace.1 size size') (ih hspace.2)

private theorem getD_textOf (t : Text) : (textOf t).getD [] = t := by
  cases t <;> rfl

private theorem text?_of_textOf {tag : Tag} {t : Text} (h : tag.text = textOf t) :
    tag.text? = textOf t := by
  rw [Tag.text?, h, textOf]
  cases t <;> rfl

/-- What the converter is given of a tag whose text refers to nothing. -/
theorem tagProse_of_references {tag : Tag} {t : Text} (htext : tag.text = textOf t)
    (href : Variables.references t = []) (vars : Variables) :
    tagProse vars tag = if t = [] ∨ tag.isVerbatim = true then [] else [Prose.prepare t] := by
  rw [tagProse, text?_of_textOf htext]
  cases t with
  | nil => rfl
  | cons c t => simp [textOf, Variables.substitute_of_references href]

/-- The converter from Markdown does not see how deep prose stands. Tabs put in front of every line
of a text but the first change neither what it is given nor what comes of the text. So a block of
text that refers to nothing and has no leading spaces in its lines is the same prose wherever its
tag is read, at any depth and in any outline, if the end of the tag's line is the same and the lines
below it are moved along. -/
theorem prose_ignores_depth :
    (∀ (k : Nat) (t : Text), Prose.prepare (Text.indented k t) = Prose.prepare t ∧
      ∀ convert, Prose.toHtml convert (Text.indented k t) = Prose.toHtml convert t) ∧
    ∀ (k : Nat) (source source' : Text) (o o' : Options) (depth depth' : Nat) (tag tag' : Tag),
      HasBlock source o depth tag → HasBlock source' o' depth' tag' → tag'.name = tag.name →
      afterModifiers (codeOf source') tag' = afterModifiers (codeOf source) tag →
      List.Forall₂ (Text.MovedBy k) (bodyLines source depth tag) (bodyLines source' depth' tag') →
      (∀ line ∈ bodyLines source depth tag, ' ' ∉ leading line) →
      Variables.references (tag.text?.getD []) = [] →
      ∀ vars vars' : Variables, tagProse vars' tag' = tagProse vars tag := by
  constructor
  · intro k t
    have hprepare := (Text.shifted_indented k t).prepare_eq
    exact ⟨hprepare, fun convert => by rw [Prose.toHtml, Prose.toHtml, hprepare]⟩
  · intro k source source' o o' depth depth' tag tag' h h' hname hend hmoved hspace href vars vars'
    have hlines := forall₂_tabLine hmoved hspace (indentSize (sourceLines source))
      (indentSize (sourceLines source'))
    have hshifted := (Text.Shifted.intro h.newline_not_mem hlines).strip
    have htext := h.text_eq
    have htext' := h'.text_eq
    rw [hend] at htext'
    rw [text?_of_textOf htext, getD_textOf] at href
    rw [tagProse_of_references htext' (hshifted.references_eq.trans href),
      tagProse_of_references htext href, hshifted.prepare_eq, h.isVerbatim_eq, h'.isVerbatim_eq,
      hname]
    simp only [hshifted.eq_nil_iff]

/-- A block with a blank line and a line that is deeper than the others, at the root of an outline
and in a list. The blank line is written in another way, and another item follows. -/
theorem prose_ignores_depth_at_item :
    ∃ tag tag', HasBlock "li. x\n\ta\n\n\t\tb\n" { file := "i" } 0 tag ∧
      HasBlock "ul\n\tli. x\n\t\ta\n  \n\t\t\tb\n\tli y" { file := "j" } 1 tag' ∧
      tagProse {} tag = ["x\na\n\n\tb"] ∧
      ∀ vars vars' : Variables, tagProse vars' tag' = tagProse vars tag := by
  let source : Text := "li. x\n\ta\n\n\t\tb\n"
  let source' : Text := "ul\n\tli. x\n\t\ta\n  \n\t\t\tb\n\tli y"
  let tag : Tag :=
    { name := "li", file := "i", text := some "x\n\ta\n\n\t\tb", isBlock := true, line := 1,
      column := 1 }
  let tag' : Tag :=
    { name := "li", file := "j", text := some "x\n\t\ta\n\n\t\t\tb", isBlock := true, line := 2,
      column := 2 }
  have hblock : HasBlock source { file := "i" } 0 tag := by
    have hread : ((read source { file := "i" }).toOption.bind fun elements =>
        elements.head?.map (·.tag)) = some tag := by
      decide +kernel
    obtain ⟨elements, helements, hfirst⟩ := Option.bind_eq_some_iff.mp hread
    obtain ⟨e, he, htag⟩ := Option.map_eq_some_iff.mp hfirst
    exact ⟨rfl, elements, e, toOption_eq_some helements, .root (List.mem_of_mem_head? he), htag⟩
  have hblock' : HasBlock source' { file := "j" } 1 tag' := by
    have hread : ((read source' { file := "j" }).toOption.bind fun elements =>
        elements.head?.bind fun list => list.children.head?.map (·.tag)) = some tag' := by
      decide +kernel
    obtain ⟨elements, helements, hlist⟩ := Option.bind_eq_some_iff.mp hread
    obtain ⟨list, hlist, hfirst⟩ := Option.bind_eq_some_iff.mp hlist
    obtain ⟨e, he, htag⟩ := Option.map_eq_some_iff.mp hfirst
    exact ⟨rfl, elements, e, toOption_eq_some helements,
      .child (List.mem_of_mem_head? hlist) (.root (List.mem_of_mem_head? he)), htag⟩
  have hlines : bodyLines source 0 tag = ["\ta".toList, [], "\t\tb".toList] := by decide +kernel
  have hlines' : bodyLines source' 1 tag' =
      ["\t\ta".toList, "  ".toList, "\t\t\tb".toList] := by
    decide +kernel
  refine ⟨tag, tag', hblock, hblock', by decide +kernel, ?_⟩
  refine prose_ignores_depth.2 1 source source' _ _ 0 1 tag tag' hblock hblock' rfl
    (by decide +kernel) ?_ ?_ (by decide +kernel)
  · rw [hlines, hlines']
    exact .cons (.line (by decide)) (.cons (.empty (by decide) (by decide))
      (.cons (.line (by decide)) .nil))
  · rw [hlines]
    decide +kernel

end Outline

end OutlinePage
