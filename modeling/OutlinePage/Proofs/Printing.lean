import OutlinePage.Proofs.Pieces
import OutlinePage.Proofs.PrintedTag

/-!
# Printed outlines

An outline printed from a forest of tags: one line for each tag, behind as many tabs as the tag is
deep, with empty lines and comments anywhere between them. Reading a printed outline gives back the
forest that it was printed from.
-/

namespace OutlinePage.Outline

/-- A line without a tag. -/
inductive Gap where
  | empty
  | comment (tabs : Nat) (words : Phrase)

def Gap.line : Gap → Text
  | .empty => []
  | .comment tabs words => List.replicate tabs '\t' ++ ('/' :: '/' :: words.letters)

/-- A tag to be printed, with the lines right above it and the tags below it. -/
structure Sketch where
  above : List Gap
  spelling : Spelling
  children : List Sketch

/-- Proves something about all forests of sketches, level by level. -/
theorem sketch_induction {P : List Sketch → Prop} (nil : P [])
    (cons : ∀ above spelling children rest, P children → P rest →
      P (⟨above, spelling, children⟩ :: rest))
    (forest : List Sketch) : P forest :=
  @Sketch.rec_1 (fun k => ∀ rest, P rest → P (k :: rest)) P
    (fun above spelling children hc rest hr => cons above spelling children rest hc hr) nil
    (fun _ ks hk hr => hk ks hr) forest

mutual

/-- The lines of a tag at the given depth and of what belongs to it. -/
def Sketch.lines (depth : Nat) : Sketch → List Text
  | ⟨above, spelling, children⟩ =>
    above.map Gap.line ++ spelling.line depth :: linesOf (depth + 1) children

/-- The lines of a forest at the given depth. -/
def linesOf (depth : Nat) : List Sketch → List Text
  | [] => []
  | k :: rest => k.lines depth ++ linesOf depth rest

end

mutual

/-- The element that is printed in the lines from the given number on. -/
def Sketch.element (file : Text) (depth number : Nat) : Sketch → Element
  | ⟨above, spelling, children⟩ =>
    ⟨spelling.tag file depth (number + above.length),
      elementsOf file (depth + 1) (number + above.length + 1) children⟩

/-- The elements that are printed in the lines from the given number on. -/
def elementsOf (file : Text) (depth number : Nat) : List Sketch → List Element
  | [] => []
  | k :: rest =>
    k.element file depth number :: elementsOf file depth (number + (k.lines depth).length) rest

end

/-- The outline of a forest, with some more lines below it. -/
def printed (forest : List Sketch) (last : List Gap) : Text :=
  Text.join "\n" (linesOf 0 forest ++ last.map Gap.line)

/-- No sketches have no lines. -/
@[simp] theorem linesOf_nil (depth : Nat) : linesOf depth [] = [] := rfl

/-- The lines of a sketch: its gaps, its tag, its children one level deeper, and the sketches after
it. -/
@[simp] theorem linesOf_cons (depth : Nat) (above : List Gap) (spelling : Spelling)
    (children rest : List Sketch) :
    linesOf depth (⟨above, spelling, children⟩ :: rest) =
      above.map Gap.line ++ spelling.line depth :: linesOf (depth + 1) children ++
        linesOf depth rest := rfl

/-- No sketches stand for no elements. -/
@[simp] theorem elementsOf_nil (file : Text) (depth number : Nat) :
    elementsOf file depth number [] = [] := rfl

/-- A sketch stands for an element, which is on the line after the gaps above it. -/
@[simp] theorem elementsOf_cons (file : Text) (depth number : Nat) (above : List Gap)
    (spelling : Spelling) (children rest : List Sketch) :
    elementsOf file depth number (⟨above, spelling, children⟩ :: rest) =
      ⟨spelling.tag file depth (number + above.length),
        elementsOf file (depth + 1) (number + above.length + 1) children⟩ ::
      elementsOf file depth (number + above.length + 1 + (linesOf (depth + 1) children).length)
        rest := by
  rw [elementsOf, Sketch.element, Sketch.lines, List.length_append, List.length_map,
    List.length_cons]
  simp only [Nat.add_assoc, Nat.add_comm 1]

/-! ### Printed lines -/

/-- Lines with their line feeds. -/
def joinLines (lines : List Text) : Text := lines.flatMap (· ++ ['\n'])

/-- Each line is followed by a line feed. -/
theorem joinLines_cons (line : Text) (lines : List Text) :
    joinLines (line :: lines) = line ++ '\n' :: joinLines lines := by
  simp [joinLines]

/-- Lines after other lines are joined after them. -/
theorem joinLines_append (lines others : List Text) :
    joinLines (lines ++ others) = joinLines lines ++ joinLines others :=
  List.flatMap_append

/-- Lines with line feeds between them, and one after the last, are all followed by one. -/
theorem join_append_newline {lines : List Text} (hne : lines ≠ []) :
    Text.join "\n" lines ++ "\n" = joinLines lines := by
  induction lines with
  | nil => exact absurd rfl hne
  | cons line lines ih =>
    cases lines with
    | nil => simp [Text.join, joinLines]
    | cons next lines =>
      rw [Text.join, List.append_assoc, ih (List.cons_ne_nil _ _), joinLines_cons line,
        List.append_assoc]
      rfl

private theorem whole_append_joinLines {before : Text} (h : Whole before) (lines : List Text) :
    Whole (before ++ joinLines lines) := by
  induction lines generalizing before with
  | nil => simpa [joinLines] using h
  | cons line lines ih =>
    rw [joinLines_cons, ← List.append_assoc, List.append_cons]
    exact ih (whole_append_newline _)

/-- A line that is one line of the code as it stands. -/
structure IsPrintedLine (line : Text) : Prop where
  oneLine : OneLine line
  tabbed : ' ' ∉ leading line

private theorem count_joinLines {lines : List Text} (h : ∀ line ∈ lines, IsPrintedLine line) :
    (joinLines lines).count '\n' = lines.length := by
  induction lines with
  | nil => rfl
  | cons line lines ih =>
    have hline : line.count '\n' = 0 := by
      apply count_newline_eq_zero
      intro c hc
      exact inLine_eq_true.mpr ((h line List.mem_cons_self).oneLine c hc).2
    rw [joinLines_cons, List.count_append, hline, List.count_cons_self,
      ih fun l hl => h l (List.mem_cons_of_mem line hl)]
    simp

/-- The rest of the code that begins with the line of the given number. -/
def BeginsAt (code : Text) (number : Nat) (rest : Text) : Prop :=
  ∃ before, code = before ++ rest ∧ Whole before ∧ number = before.count '\n' + 1

/-- Printed lines at a place lead to the place as many lines further on. -/
theorem BeginsAt.after {code rest : Text} {number : Nat} {lines : List Text}
    (h : BeginsAt code number (joinLines lines ++ rest))
    (hl : ∀ line ∈ lines, IsPrintedLine line) : BeginsAt code (number + lines.length) rest := by
  obtain ⟨before, hcode, hbefore, rfl⟩ := h
  refine ⟨before ++ joinLines lines, ?_, ?_, ?_⟩
  · rw [hcode, List.append_assoc]
  · exact whole_append_joinLines hbefore lines
  · rw [List.count_append, count_joinLines hl]
    omega

private theorem not_mem_leading {depth : Nat} {c : Char} (hc : isNameChar c = true) (t : Text) :
    ' ' ∉ leading (List.replicate depth '\t' ++ c :: t) := by
  rw [leading, (span_tabs (by decide) (isIndent_of_isNameChar hc) depth t).1]
  intro hm
  cases List.eq_of_mem_replicate hm

private theorem isPrintedLine_gap (g : Gap) : IsPrintedLine g.line := by
  cases g with
  | empty => exact ⟨additive_oneLine.nil, by simp [Gap.line, leading]⟩
  | comment tabs words =>
    refine ⟨?_, not_mem_leading (by decide) _⟩
    exact (oneLine_tabs tabs).append ((words.oneLine.cons (by decide)).cons (by decide))

private theorem isPrintedLine_spelling (sp : Spelling) (depth : Nat) :
    IsPrintedLine (sp.line depth) := by
  refine ⟨sp.oneLine_line depth, ?_⟩
  obtain ⟨c, w, hname⟩ := List.exists_cons_of_ne_nil sp.name.ne_nil
  rw [Spelling.line, hname]
  exact not_mem_leading (sp.name.isNameChar_of_mem c (hname ▸ List.mem_cons_self)) _

private theorem isPrintedLine_linesOf {depth : Nat} {forest : List Sketch} :
    ∀ line ∈ linesOf depth forest, IsPrintedLine line := by
  induction forest using sketch_induction generalizing depth with
  | nil => simp
  | cons above sp children rest ihc ihr =>
    intro line h
    rw [linesOf_cons, List.mem_append, List.mem_append, List.mem_cons, List.mem_map] at h
    rcases h with (⟨g, -, rfl⟩ | rfl | h) | h
    · exact isPrintedLine_gap g
    · exact isPrintedLine_spelling sp depth
    · exact ihc line h
    · exact ihr line h

/-! ### The code of a printed outline -/

/-- Printed lines are the lines of the code. -/
theorem codeOf_join {lines : List Text} (hne : lines ≠ [])
    (h : ∀ line ∈ lines, IsPrintedLine line) :
    codeOf (Text.join "\n" lines) = joinLines lines := by
  have hreturns : ∀ c ∈ Text.join "\n" lines, c ≠ '\r' := by
    apply (additive_forall fun c => c ≠ '\r').join
    · simp
    · intro line hl c hc
      exact ((h line hl).oneLine c hc).1
  have hsource : sourceLines (Text.join "\n" lines) = lines := by
    rw [sourceLines, dropReturns_eq_self fun hc => hreturns '\r' hc rfl]
    exact Text.split_join hne fun l hl hmem => ((h l hl).oneLine '\n' hmem).2 rfl
  have htabs (size : Nat) : lines.map (tabLine size) = lines := by
    calc lines.map (tabLine size) = lines.map id :=
          List.map_congr_left fun line hl => tabLine_of_tabbed (h line hl).tabbed size
      _ = lines := List.map_id lines
  rw [codeOf, normalizeIndentation, hsource, htabs, join_append_newline hne]

/-! ### Reading printed lines -/

section

variable {s : Source}

private theorem scanLines_gap (room : Nat) (g : Gap) (rest : Text) :
    s.scanLines room (g.line ++ '\n' :: rest) = s.scanLines room rest := by
  have hnext : nextLine (g.line ++ '\n' :: rest) = rest := by
    rw [nextLine, ((isPrintedLine_gap g).oneLine.span rest).2]
    rfl
  have hname : isTagName (lineMark (g.line ++ '\n' :: rest)).name = false := by
    cases g with
    | empty => rfl
    | comment tabs words =>
      rw [Gap.line, lineMark, List.append_assoc, List.cons_append,
        (span_tabs (by decide) (by decide) tabs _).2]
      rfl
  rw [s.scanLines_pass room hname, hnext]

private theorem scanLines_gaps (room : Nat) (gaps : List Gap) (rest : Text) :
    s.scanLines room (joinLines (gaps.map Gap.line) ++ rest) = s.scanLines room rest := by
  induction gaps with
  | nil => rfl
  | cons g gaps ih =>
    rw [List.map_cons, joinLines_cons, List.append_assoc, List.cons_append, scanLines_gap, ih]

private theorem scanLines_spelling {sp : Spelling} {number depth room : Nat} {rest : Text}
    (h : BeginsAt s.code number (sp.line depth ++ '\n' :: rest))
    (hpage : s.options.page = []) (hroom : depth ≤ room) :
    s.scanLines room (sp.line depth ++ '\n' :: rest) =
      (s.scanLines (depth + 1) rest).map
        ((depth, sp.tag s.options.file depth number) :: ·) := by
  obtain ⟨before, hcode, hbefore, rfl⟩ := h
  have hmark := sp.lineMark_line depth rest
  have hmin : min (lineMark (sp.line depth ++ '\n' :: rest)).tabs room = depth := by
    rw [hmark]
    exact Nat.min_eq_left hroom
  have hname : isTagName (lineMark (sp.line depth ++ '\n' :: rest)).name = true := by
    rw [hmark, isTagName, List.isEmpty_eq_false_iff.mpr sp.name.ne_nil, sp.notComment]
    rfl
  rw [s.scanLines_tag room hname (sp.readTag_line _ hcode hbefore hpage), hmin]
  rfl

/-- The tag is what a line of the code spells, the line that the tag says it is in. -/
def IsSpelledIn (code file : Text) (depth : Nat) (tag : Tag) : Prop :=
  ∃ sp : Spelling, tag = sp.tag file depth tag.line.toNat ∧
    lineOf code tag.line.toNat = sp.line depth

private theorem isSpelledIn_line {code : Text} {sp : Spelling} {number depth : Nat} {rest : Text}
    (h : BeginsAt code number (sp.line depth ++ '\n' :: rest)) (file : Text) :
    IsSpelledIn code file depth (sp.tag file depth number) := by
  obtain ⟨before, rfl, hbefore, rfl⟩ := h
  refine ⟨sp, rfl, ?_⟩
  calc lineOf (before ++ (sp.line depth ++ '\n' :: rest)) (before.count '\n' + 1)
      = (sp.line depth ++ '\n' :: rest).takeWhile inLine := lineOf_count hbefore _
    _ = sp.line depth := ((sp.oneLine_line depth).span rest).1

/-- The lines of a printed forest give its tags, and leave room for tags at its own depth. -/
theorem scanLines_linesOf (hpage : s.options.page = []) {forest : List Sketch}
    {number depth room : Nat} {rest : Text}
    (h : BeginsAt s.code number (joinLines (linesOf depth forest) ++ rest))
    (hroom : depth ≤ room) :
    let tags := flatten depth (elementsOf s.options.file depth number forest)
    (∃ room', depth ≤ room' ∧ s.scanLines room (joinLines (linesOf depth forest) ++ rest) =
      (s.scanLines room' rest).map (tags ++ ·)) ∧
    ∀ e ∈ tags, IsSpelledIn s.code s.options.file e.1 e.2 := by
  induction forest using sketch_induction generalizing number depth room rest with
  | nil =>
    refine ⟨⟨room, hroom, ?_⟩, by simp⟩
    cases hs : s.scanLines room rest <;> simp [joinLines, hs, Except.map]
  | cons above sp children others ihc iho =>
    have hcut : joinLines (linesOf depth (⟨above, sp, children⟩ :: others)) ++ rest =
        joinLines (above.map Gap.line) ++ (joinLines [sp.line depth] ++
          (joinLines (linesOf (depth + 1) children) ++
            (joinLines (linesOf depth others) ++ rest))) := by
      simp [linesOf_cons, joinLines]
    have hown (rest : Text) :
        joinLines [sp.line depth] ++ rest = sp.line depth ++ '\n' :: rest := by
      simp [joinLines]
    -- The places after the gaps, after the tag's own line, and after the children.
    have hgaps := (hcut ▸ h).after (by simpa using fun g _ => isPrintedLine_gap g)
    have hchildren := hgaps.after (by simpa using isPrintedLine_spelling sp depth)
    have hothers := hchildren.after isPrintedLine_linesOf
    rw [List.length_map] at hgaps hchildren hothers
    rw [hown] at hgaps
    obtain ⟨⟨room₁, hroom₁, hc⟩, hcs⟩ := ihc hchildren (Nat.le_refl _)
    obtain ⟨⟨room₂, hroom₂, ho⟩, hos⟩ := iho hothers (Nat.le_of_succ_le hroom₁)
    rw [elementsOf_cons, flatten_cons]
    refine ⟨⟨room₂, hroom₂, ?_⟩, ?_⟩
    · rw [hcut, scanLines_gaps, hown, scanLines_spelling hgaps hpage hroom, hc, ho]
      cases s.scanLines room₂ rest <;> simp [Except.map]
    · intro e he
      rw [List.mem_cons, List.mem_append] at he
      rcases he with rfl | he | he
      · exact isSpelledIn_line hgaps s.options.file
      · exact hcs e he
      · exact hos e he

end

/-! ### Reading undoes printing -/

private theorem scanLines_printed (options : Options) (hpage : options.page = [])
    {forest : List Sketch} {last : List Gap} (hne : linesOf 0 forest ++ last.map Gap.line ≠ []) :
    let s : Source := ⟨codeOf (printed forest last), options⟩
    let tags := flatten 0 (elementsOf options.file 0 1 forest)
    s.scanLines 0 s.code = .ok tags ∧ ∀ e ∈ tags, IsSpelledIn s.code options.file e.1 e.2 := by
  intro s tags
  have hlines : ∀ line ∈ linesOf 0 forest ++ last.map Gap.line, IsPrintedLine line := by
    intro line hl
    rw [List.mem_append, List.mem_map] at hl
    rcases hl with hl | ⟨g, -, rfl⟩
    · exact isPrintedLine_linesOf line hl
    · exact isPrintedLine_gap g
  have hcode : s.code = joinLines (linesOf 0 forest) ++ joinLines (last.map Gap.line) := by
    rw [← joinLines_append]
    exact codeOf_join hne hlines
  have hbegins : BeginsAt s.code 1
      (joinLines (linesOf 0 forest) ++ joinLines (last.map Gap.line)) :=
    ⟨[], hcode, whole_nil, rfl⟩
  obtain ⟨⟨room, -, hscan⟩, hspelled⟩ := scanLines_linesOf hpage hbegins (Nat.le_refl 0)
  have hlast := scanLines_gaps (s := s) room last []
  rw [List.append_nil, Source.scanLines_nil] at hlast
  rw [hlast, ← hcode] at hscan
  refine ⟨?_, hspelled⟩
  rw [hscan]
  simp [Except.map, tags, s]

/-- An outline without lines is the same as one with an empty line. -/
theorem printed_eq_with_lines (forest : List Sketch) (last : List Gap) :
    ∃ last', printed forest last = printed forest last' ∧
      linesOf 0 forest ++ last'.map Gap.line ≠ [] := by
  by_cases hne : linesOf 0 forest ++ last.map Gap.line = []
  · refine ⟨[.empty], ?_, by simp⟩
    rw [printed, printed, hne, (List.append_eq_nil_iff.mp hne).1]
    rfl
  · exact ⟨last, rfl, hne⟩

/-- Reading a printed outline to its end succeeds and gives the elements that were printed, each of
them spelled by the line that its tag names. -/
theorem reading_undoes_printing (options : Options) (forest : List Sketch) (last : List Gap) :
    let source := printed forest last
    let elements := elementsOf options.file 0 1 forest
    readFrom source { options with page := [] } 0 0 =
        .ok ⟨elements, (codeOf source).length⟩ ∧
      ∀ e ∈ flatten 0 elements, IsSpelledIn (codeOf source) options.file e.1 e.2 := by
  intro source elements
  obtain ⟨last', hsource, hne⟩ := printed_eq_with_lines forest last
  obtain ⟨hscan, hspelled⟩ := scanLines_printed { options with page := [] } rfl hne
  rw [← hsource] at hscan hspelled
  refine ⟨?_, hspelled⟩
  have hflat := readFrom_zero source { options with page := [] }
  rw [hscan] at hflat
  cases hr : readFrom source { options with page := [] } 0 0 with
  | error e =>
    rw [hr] at hflat
    cases hflat
  | ok r =>
    rw [hr] at hflat
    obtain ⟨read, stop⟩ := r
    have hpair := Prod.mk.inj (Except.ok.inj hflat)
    have helements : read = elements := flatten_injective 0 hpair.1
    have hstop : stop = (codeOf source).length := hpair.2
    rw [helements, hstop]

end OutlinePage.Outline
