import OutlinePage.Proofs.Concatenation

/-!
# Blocks of text are opaque

A tag with a block of text takes up the lines below it as long as they are blank or deeper than the
tag. Nothing in these lines is read as a tag, and no other lines in their place can make a
difference to anything but the text of this one tag.
-/

namespace OutlinePage.Outline

open Page

/-- The element stands in the forest at the given depth. -/
inductive StandsAt : Nat → Element → List Element → Prop where
  | root {e : Element} {es : List Element} (mem : e ∈ es) : StandsAt 0 e es
  | child {depth : Nat} {e parent : Element} {es : List Element} (mem : parent ∈ es)
    (inside : StandsAt depth e parent.children) : StandsAt (depth + 1) e es

/-- Is the line blank, or behind more tabs than the given number? -/
def isDeeper (depth : Nat) (line : Text) : Bool :=
  Text.isBlankText line || decide (depth < (line.takeWhile (· == '\t')).length)

/-- The lines of a block of text below the tag, which has the given depth and whose modifiers end in
the line of the given number. -/
def blockLines (source : Text) (depth number : Nat) : List Text :=
  ((Text.split '\n' source).drop number).takeWhile (isDeeper depth)

/-- The text of a block: what comes after the modifiers in their last line, and the lines below. -/
def blockText (rest : Text) (lines : List Text) : Option Text :=
  textOf (Text.strip (Text.join "\n" (rest.takeWhile inLine :: lines)))

/-- The source with other lines in place of a block of text. -/
def withBlock (source : Text) (depth number : Nat) (lines : List Text) : Text :=
  Text.join "\n" ((Text.split '\n' source).take number ++ lines ++
    (Text.split '\n' source).drop (number + (blockLines source depth number).length))

/-! ### Elements in the flat list -/

/-- An element and those below it come in one piece. -/
theorem StandsAt.flatten_eq {depth : Nat} {e : Element} {es : List Element}
    (h : StandsAt depth e es) (k : Nat) :
    ∃ first second, flatten k es =
      first ++ (k + depth, e.tag) :: (flatten (k + depth + 1) e.children ++ second) := by
  induction h generalizing k with
  | @root e es mem =>
    obtain ⟨es₁, es₂, rfl⟩ := List.append_of_mem mem
    obtain ⟨tag, children⟩ := e
    refine ⟨flatten k es₁, flatten k es₂, ?_⟩
    simp [flatten_append]
  | @child depth e parent es mem inside ih =>
    obtain ⟨es₁, es₂, rfl⟩ := List.append_of_mem mem
    obtain ⟨first, second, hinside⟩ := ih (k + 1)
    obtain ⟨tag, children⟩ := parent
    refine ⟨flatten k es₁ ++ (k, tag) :: first, second ++ flatten k es₂, ?_⟩
    have hk : k + 1 + depth = k + (depth + 1) := by omega
    rw [flatten_append, flatten_cons, hinside, hk]
    simp

/-! ### Lines of the code -/

private theorem append_newline_eq (t rest : Text) :
    t ++ '\n' :: rest = joinLines (Text.split '\n' t) ++ rest := by
  have hjoin := join_append_newline (Text.split_ne_nil '\n' t)
  have hsplit : Text.join "\n" (Text.split '\n' t) = t := Text.join_split t
  rw [hsplit] at hjoin
  rw [← hjoin]
  simp

private theorem split_joinLines {lines : List Text} (h : ∀ line ∈ lines, '\n' ∉ line) :
    Text.split '\n' (joinLines lines) = lines ++ [[]] := by
  induction lines with
  | nil => rfl
  | cons line lines ih =>
    rw [joinLines_cons, Text.split_append, Text.split_of_not_mem (h line List.mem_cons_self),
      ih fun l hl => h l (List.mem_cons_of_mem line hl)]
    rfl

/-- Lines with their line feeds tell where each line ends. -/
theorem joinLines_inj {lines lines' : List Text} (h : ∀ line ∈ lines, '\n' ∉ line)
    (h' : ∀ line ∈ lines', '\n' ∉ line) (heq : joinLines lines = joinLines lines') :
    lines = lines' := by
  have hsplit : lines ++ [[]] = lines' ++ [[]] := by
    rw [← split_joinLines h, ← split_joinLines h', heq]
  exact List.append_cancel_right hsplit

private theorem exists_joinLines {t : Text} (h : Whole t) :
    ∃ lines, t = joinLines lines ∧ ∀ line ∈ lines, '\n' ∉ line := by
  rcases h with rfl | ⟨t, rfl⟩
  · exact ⟨[], rfl, by simp⟩
  · refine ⟨Text.split '\n' t, ?_, fun line hline => Text.not_mem_of_mem_split hline⟩
    rw [append_newline_eq, List.append_nil]

private theorem length_split (t : Text) : (Text.split '\n' t).length = t.count '\n' + 1 := by
  induction t with
  | nil => rfl
  | cons c t ih =>
    by_cases hc : c = '\n'
    · subst hc
      rw [Text.split_cons_self, List.length_cons, ih, List.count_cons_self]
    · rw [Text.split, if_neg hc, List.count_cons_of_ne hc]
      rw [split_newline t] at ih ⊢
      simpa using ih

private theorem Tabbed.isPrintedLine {source : Text} (h : Tabbed source) :
    ∀ line ∈ Text.split '\n' source, IsPrintedLine line := by
  intro line hline
  refine ⟨fun c hc => ⟨?_, ?_⟩, h.no_space line hline⟩
  · rintro rfl
    exact h.no_return (Text.mem_of_mem_split hline hc)
  · rintro rfl
    exact Text.not_mem_of_mem_split hline hc

private theorem IsPrintedLine.not_mem {line : Text} (h : IsPrintedLine line) : '\n' ∉ line :=
  fun hc => (h.oneLine '\n' hc).2 rfl

/-- A line that is blank or deeper is a line that ends no block. -/
theorem endsBlock_eq_not_isDeeper {line : Text} (h : '\n' ∉ line) (depth : Nat) :
    endsBlock depth line = !isDeeper depth line := by
  have hline : line.takeWhile inLine = line := by
    rw [List.takeWhile_eq_self_iff]
    intro c hc
    apply inLine_eq_true.mpr
    rintro rfl
    exact h hc
  have htabs : ∀ c ∈ line.takeWhile (· == '\t'), Text.isBlank c = true := by
    intro c hc
    have htab : (c == '\t') = true := List.mem_takeWhile_imp (p := (· == '\t')) hc
    rw [eq_of_beq htab]
    decide
  have happ : line.takeWhile (· == '\t') ++ line.dropWhile (· == '\t') = line :=
    List.takeWhile_append_dropWhile
  have hblank : Text.isBlankText line = Text.isBlankText (line.dropWhile (· == '\t')) := by
    calc Text.isBlankText line
        = Text.isBlankText (line.takeWhile (· == '\t') ++ line.dropWhile (· == '\t')) := by
          rw [happ]
      _ = Text.isBlankText (line.dropWhile (· == '\t')) := by
        rw [Text.isBlankText, Text.isBlankText, List.all_append, List.all_eq_true.mpr htabs,
          Bool.true_and]
  have hlength := congrArg List.length happ
  rw [List.length_append] at hlength
  have hdepth : line.length - (line.dropWhile (· == '\t')).length =
      (line.takeWhile (· == '\t')).length := by
    omega
  simp only [endsBlock, isDeeper, hline, hblank, hdepth, Bool.not_or]
  congr 1
  by_cases hd : depth < (line.takeWhile (· == '\t')).length
  · simp [hd]
  · simp [hd, Nat.not_lt.mp hd]

private theorem strip_drop_one {t : Text} (h : ∀ c ∈ t.head?, Text.isBlank c = true) :
    Text.strip (t.drop 1) = Text.strip t := by
  cases t with
  | nil => rfl
  | cons c t => simp [Text.strip, Text.trimStart, h c rfl]

/-! ### A tag with a block of text -/

section

variable {depth : Nat} {junk name modifiers body after : Text}

/-- Modifiers end before a space or a line feed. -/
theorem Spelled.isBlank_head (h : Spelled depth junk name modifiers body after) :
    ∀ c ∈ body.head?, Text.isBlank c = true := by
  intro c hc
  obtain ⟨-, d, r, hr, hd⟩ := scanFrom_eq_some h.scan
  cases body with
  | nil => cases hc
  | cons x body =>
    obtain rfl : x = c := Option.some.inj hc
    obtain rfl : x = d := (List.cons.inj hr).1
    rcases hd with rfl | rfl <;> decide

/-- The body of a tag makes a difference to its text only. -/
theorem tagOf_with_text (o : Options) (name modifiers body body' : Text) (line column : Nat) :
    { tagOf o name modifiers body line column with
        text := (tagOf o name modifiers body' line column).text } =
      tagOf o name modifiers body' line column := rfl

/-- The text of a tag with a block is its body, stripped. -/
theorem Spelled.text_tagOf (h : Spelled depth junk name modifiers body after)
    (hblock : announcesBlock modifiers = true) (o : Options) (line column : Nat) :
    (tagOf o name modifiers body line column).text = textOf (Text.strip body) := by
  rw [← strip_drop_one h.isBlank_head]
  simp [tagOf, hblock]

/-- The pieces in the code tell where the tag lies. -/
theorem Spelled.lies (h : Spelled depth junk name modifiers body after) {code before : Text}
    (hcode : code = before ++ (junk ++ (name ++ (modifiers ++ (body ++ '\n' :: after)))))
    (hbefore : Whole before) (o : Options) :
    Lies code depth (tagOf o name modifiers body (before.count '\n' + 1) (junk.length + 1)) before
      junk modifiers body after where
  code_eq := hcode
  whole := hbefore
  filler := h.filler
  word := h.word
  isTag := h.isTag
  wordEnd := h.wordEnd
  line := rfl
  column := rfl
  scan := h.scan
  block := fun hb => blockEnd_eq_iff.mpr (h.block hb)
  text := h.text

/-- The lines of an outline with a block of text: those up to the end of the modifiers, those of the
block and those after it. -/
structure BlockAt (source : Text) (depth : Nat) (above first after : Text)
    (lines later : List Text) : Prop where
  lines_eq : Text.split '\n' source = Text.split '\n' (above ++ first) ++ (lines ++ later)
  after_eq : after = joinLines later
  deeper : ∀ line ∈ lines, isDeeper depth line = true
  ended : ∀ line ∈ later.head?, isDeeper depth line = false

/-- The first line of a text, and its other lines. -/
theorem append_newline_first (t rest : Text) :
    t ++ '\n' :: rest =
      t.takeWhile inLine ++ '\n' :: (joinLines (Text.split '\n' t).tail ++ rest) := by
  rw [append_newline_eq, split_newline, joinLines_cons]
  simp

/-- A block of text in a code is a block of lines in the text that the code is made of. -/
theorem Spelled.blockAt_of_code (h : Spelled depth junk name modifiers body after)
    (hblock : announcesBlock modifiers = true) {text before : Text}
    (hcode : text ++ ['\n'] =
      before ++ (junk ++ (name ++ (modifiers ++ (body ++ '\n' :: after))))) :
    ∃ later, BlockAt text depth (before ++ (junk ++ (name ++ modifiers))) (body.takeWhile inLine)
      after (Text.split '\n' body).tail later := by
  obtain ⟨hstop, hlines⟩ := h.block hblock
  have hbody : ∀ line ∈ (Text.split '\n' body).tail, '\n' ∉ line := fun line hline =>
    Text.not_mem_of_mem_split (List.mem_of_mem_tail hline)
  have hafter : Whole after := by
    apply whole_of_append (t := before ++ (junk ++ (name ++ (modifiers ++ body))) ++ ['\n'])
    have hwhole := whole_append_newline text
    rw [hcode] at hwhole
    simpa using hwhole
  obtain ⟨later, rfl, hlater⟩ := exists_joinLines hafter
  refine ⟨later, ?_, rfl, ?_, ?_⟩
  · have hsplit : text ++ ['\n'] = joinLines (Text.split '\n' text) := by
      rw [append_newline_eq, List.append_nil]
    apply joinLines_inj
    · exact fun line hline => Text.not_mem_of_mem_split hline
    · intro line hline
      rcases List.mem_append.mp hline with hline | hline
      · exact Text.not_mem_of_mem_split hline
      · exact (List.mem_append.mp hline).elim (hbody line) (hlater line)
    · rw [← hsplit, hcode, joinLines_append, joinLines_append, ← append_newline_eq,
        append_newline_first body]
      simp
  · intro line hline
    have hend := hlines line hline
    rw [endsBlock_eq_not_isDeeper (hbody line hline)] at hend
    simpa using hend
  · intro line hline
    cases later with
    | nil => cases hline
    | cons first later =>
      obtain rfl : first = line := Option.some.inj hline
      have hfirst := hlater first List.mem_cons_self
      have hend : endsBlock depth (joinLines (first :: later)) = true := by
        refine hstop.resolve_left ?_
        simp [joinLines_cons]
      rw [joinLines_cons, endsBlock_append_newline, endsBlock_takeWhile,
        endsBlock_eq_not_isDeeper hfirst] at hend
      simpa using hend

/-- A block of text in the code is a block of lines in the source. -/
theorem Spelled.blockAt (h : Spelled depth junk name modifiers body after)
    (hblock : announcesBlock modifiers = true) {source before : Text} (hsource : Tabbed source)
    (hcode : codeOf source = before ++ (junk ++ (name ++ (modifiers ++ (body ++ '\n' :: after))))) :
    ∃ later, BlockAt source depth (before ++ (junk ++ (name ++ modifiers))) (body.takeWhile inLine)
      after (Text.split '\n' body).tail later :=
  h.blockAt_of_code hblock (hsource.codeOf_eq.symm.trans hcode)

namespace BlockAt

variable {source above first : Text} {lines later : List Text}

private theorem length_above (hfirst : ∀ c ∈ first, inLine c = true) :
    (Text.split '\n' (above ++ first)).length = above.count '\n' + 1 := by
  rw [length_split, List.count_append, count_newline_eq_zero hfirst]

/-- The lines of a block are found below the line of its tag. -/
theorem blockLines_eq (h : BlockAt source depth above first after lines later)
    (hfirst : ∀ c ∈ first, inLine c = true) :
    blockLines source depth (above.count '\n' + 1) = lines := by
  rw [blockLines, h.lines_eq, List.drop_left' (length_above hfirst),
    List.takeWhile_append_of_pos h.deeper]
  cases later with
  | nil => simp
  | cons line later => simp [h.ended line rfl]

/-- The code with other lines in place of the block. -/
theorem codeOf_withBlock (h : BlockAt source depth above first after lines later)
    (hsource : Tabbed source) (hfirst : ∀ c ∈ first, inLine c = true) {lines' : List Text}
    (hlines' : ∀ line ∈ lines', IsPrintedLine line) :
    codeOf (withBlock source depth (above.count '\n' + 1) lines') =
      above ++ (Text.join "\n" (first :: lines') ++ '\n' :: after) := by
  have hprinted := hsource.isPrintedLine
  have hnew : withBlock source depth (above.count '\n' + 1) lines' =
      Text.join "\n" (Text.split '\n' (above ++ first) ++ (lines' ++ later)) := by
    rw [withBlock, h.blockLines_eq hfirst, h.lines_eq, List.take_left' (length_above hfirst),
      ← List.drop_drop, List.drop_left' (length_above hfirst), List.drop_left, List.append_assoc]
  rw [h.lines_eq] at hprinted
  rw [hnew, codeOf_join]
  · have hjoin := join_append_newline (List.cons_ne_nil first lines')
    rw [joinLines_cons] at hjoin
    calc joinLines (Text.split '\n' (above ++ first) ++ (lines' ++ later))
        = above ++ ((first ++ '\n' :: joinLines lines') ++ after) := by
          rw [joinLines_append, joinLines_append, ← append_newline_eq, ← h.after_eq]
          simp
      _ = above ++ (Text.join "\n" (first :: lines') ++ '\n' :: after) := by
          rw [← hjoin]
          simp
  · simp [Text.split_ne_nil]
  · intro line hline
    rcases List.mem_append.mp hline with hline | hline
    · exact hprinted line (List.mem_append_left _ hline)
    · rcases List.mem_append.mp hline with hline | hline
      · exact hlines' line hline
      · exact hprinted line (List.mem_append_right _ (List.mem_append_right _ hline))

end BlockAt

end

/-! ### On the way through an outline -/

/-- A tag with a block of text on the way through an outline, with the tags before it and after it.
The way to the tag stays with other code from there on, and the way on depends on the code after the
block only. -/
structure BlockOnWay (source : Text) (o : Options) (depth : Nat) (tag : Tag)
    (first second : List (Nat × Tag)) (before junk modifiers body after : Text) : Prop where
  announces : announcesBlock modifiers = true
  code_eq : codeOf source =
    before ++ (junk ++ (tag.name ++ (modifiers ++ (body ++ '\n' :: after))))
  whole : Whole before
  spelled : Spelled depth junk tag.name modifiers body after
  tag_eq : tag = tagOf o tag.name modifiers body (before.count '\n' + 1) (junk.length + 1)
  wayTo : ∃ room, depth = min (junk.count '\t') room ∧
    ∀ tail, (∀ d, StopsBlock d (junk ++ (tag.name ++ (modifiers ++ (body ++ '\n' :: after)))) →
      StopsBlock d tail) →
    Reaches o ⟨1, 0, before ++ tail⟩ first ⟨before.count '\n' + 1, room, tail⟩
  wayOn : ∃ q, q.rest = [] ∧
    Reaches o ⟨before.count '\n' + 1 + modifiers.count '\n' + body.count '\n' + 1, depth, after⟩
      second q

/-- Each tag on the way has its pieces in the code, which tell whether it has a block of text. -/
theorem exists_tagOnWay {source : Text} {o : Options} {elements : List Element}
    (hread : read source o = .ok elements) {depth : Nat} {tag : Tag}
    {first second : List (Nat × Tag)}
    (hflat : flatten 0 elements = first ++ (depth, tag) :: second) :
    ∃ before junk modifiers body after,
      scanModifiers (afterName (codeOf source) tag) = some (modifiers, body ++ '\n' :: after) ∧
      tag.isBlock = announcesBlock modifiers ∧
      (announcesBlock modifiers = true →
        BlockOnWay source o depth tag first second before junk modifiers body after) := by
  obtain ⟨q, hq, hway⟩ := read_eq_ok_iff.mp hread
  rw [hflat] at hway
  obtain ⟨n, room, junk, name, modifiers, body, after, hto, hdepth, htag, hspelled, hon⟩ :=
    hway.split
  obtain ⟨before, hcode, hbefore, hn, hchange⟩ := hto.change_tail
  dsimp only at hcode hn hchange
  rw [Nat.add_comm] at hn
  subst hn
  obtain rfl : name = tag.name := by rw [htag]; rfl
  have hlies := hspelled.lies hcode hbefore o
  rw [← htag] at hlies
  have hisBlock : tag.isBlock = announcesBlock modifiers := by rw [htag]; rfl
  refine ⟨before, junk, modifiers, body, after, hlies.afterName_eq ▸ hspelled.scan, hisBlock, ?_⟩
  intro hblock
  have hroom : roomAfter depth tag = depth := by
    simp [roomAfter, hisBlock, hblock]
  rw [hroom] at hon
  exact ⟨hblock, hcode, hbefore, hspelled, htag, ⟨room, hdepth, hchange⟩, ⟨q, hq, hon⟩⟩

private theorem exists_blockOnWay {source : Text} {o : Options} {elements : List Element}
    (hread : read source o = .ok elements) {depth : Nat} {tag : Tag}
    {first second : List (Nat × Tag)}
    (hflat : flatten 0 elements = first ++ (depth, tag) :: second) {modifiers rest : Text}
    (hscan : scanModifiers (afterName (codeOf source) tag) = some (modifiers, rest))
    (hblock : announcesBlock modifiers = true) :
    ∃ before junk body after, rest = body ++ '\n' :: after ∧
      BlockOnWay source o depth tag first second before junk modifiers body after := by
  obtain ⟨before, junk, modifiers', body, after, hscan', -, hway⟩ := exists_tagOnWay hread hflat
  cases hscan.symm.trans hscan'
  exact ⟨before, junk, body, after, rfl, hway hblock⟩

namespace BlockOnWay

variable {source : Text} {o : Options} {depth : Nat} {tag : Tag} {first second : List (Nat × Tag)}
  {before junk modifiers body after : Text}

private theorem isBlock
    (h : BlockOnWay source o depth tag first second before junk modifiers body after) :
    tag.isBlock = true := by
  rw [h.tag_eq]
  exact h.announces

/-- The modifiers of the tag end on the line on which its block begins. -/
theorem modifiersEnd_eq
    (h : BlockOnWay source o depth tag first second before junk modifiers body after) :
    modifiersEnd (codeOf source) tag =
      (before ++ (junk ++ (tag.name ++ modifiers))).count '\n' + 1 := by
  have hlies := h.spelled.lies h.code_eq h.whole o
  rw [← h.tag_eq] at hlies
  have hcount := h.spelled.count_newline
  simp only [List.count_append] at hcount
  rw [hlies.modifiersEnd_eq]
  simp only [List.count_append]
  omega

/-- The tag right after a block is no deeper than the tag of the block. -/
theorem head_le (h : BlockOnWay source o depth tag first second before junk modifiers body after)
    {d : Nat} {next : Tag} {others : List (Nat × Tag)} (hsecond : second = (d, next) :: others) :
    d ≤ depth := by
  obtain ⟨q, -, hon⟩ := h.wayOn
  rw [hsecond] at hon
  exact hon.head_le

/-- With another body of as many lines, none of which ends the block, only the text of the tag
changes. -/
theorem change_body
    (h : BlockOnWay source o depth tag first second before junk modifiers body after)
    {source' body' : Text}
    (hcode : codeOf source' =
      before ++ (junk ++ (tag.name ++ (modifiers ++ (body' ++ '\n' :: after)))))
    (hfirst : body'.takeWhile inLine = body.takeWhile inLine)
    (hlines : ∀ line ∈ (Text.split '\n' body').tail, endsBlock depth line = false)
    (hcount : body'.count '\n' = body.count '\n') :
    ∃ q, q.rest = [] ∧ Reaches o ⟨1, 0, codeOf source'⟩
      (first ++ (depth, { tag with text := textOf (Text.strip body') }) :: second) q := by
  have hspelled := h.spelled.change_body h.announces hfirst hlines
  obtain ⟨room, hdepth, hto⟩ := h.wayTo
  obtain ⟨q, hq, hon⟩ := h.wayOn
  have hstop (d : Nat) :
      StopsBlock d (junk ++ (tag.name ++ (modifiers ++ (body ++ '\n' :: after)))) →
        StopsBlock d (junk ++ (tag.name ++ (modifiers ++ (body' ++ '\n' :: after)))) := by
    rw [append_newline_first body, append_newline_first body', hfirst]
    simp only [← List.append_assoc, stopsBlock_append_newline]
    exact id
  have htag : { tag with text := textOf (Text.strip body') } =
      tagOf o tag.name modifiers body' (before.count '\n' + 1) (junk.length + 1) := by
    have hbody := tagOf_with_text o tag.name modifiers body body' (before.count '\n' + 1)
      (junk.length + 1)
    rwa [hspelled.text_tagOf h.announces, ← h.tag_eq] at hbody
  refine ⟨q, hq, ?_⟩
  rw [hcode]
  refine (hto _ hstop).trans (.tag hdepth htag hspelled ?_)
  have hroom : roomAfter depth { tag with text := textOf (Text.strip body') } = depth := by
    simp [roomAfter, h.isBlock]
  rw [hroom, hcount]
  exact hon

end BlockOnWay

/-- No two elements stand in the same line. -/
theorem nodup_lines {source : Text} {o : Options} {elements : List Element}
    (hread : read source o = .ok elements) : ((tags elements).map (·.line)).Nodup := by
  have hflat := read_flat source o
  rw [hread] at hflat
  have hscanned : Scanned (codeOf source) [] 0 (flatten 0 elements) :=
    Source.scanned_of_scanLines (s := ⟨codeOf source, o⟩) (whole_codeOf source) rfl whole_nil
      hflat.symm
  have hincreasing := hscanned.increasing
  rw [tags, List.map_map]
  exact hincreasing.imp fun h => Int.ne_of_lt h

/-- The tags with another text for the one in the given line. -/
def setText (line : Int) (text : Option Text) (tag : Tag) : Tag :=
  if tag.line = line then { tag with text } else tag

/-- Only the tag in its line gets another text. -/
theorem map_setText {tag : Tag} {first second : List (Nat × Tag)} {depth : Nat}
    (h : ((first ++ (depth, tag) :: second).map (·.2.line)).Nodup) (text : Option Text) :
    (first ++ (depth, tag) :: second).map (Prod.map id (setText tag.line text)) =
      first ++ (depth, { tag with text }) :: second := by
  have hother : ∀ e ∈ first ++ second, e.2.line ≠ tag.line := by
    rw [List.map_append, List.map_cons, List.nodup_append, List.nodup_cons] at h
    obtain ⟨-, ⟨hsecond, -⟩, hfirst⟩ := h
    intro e he hline
    have hmem {es : List (Nat × Tag)} (hes : e ∈ es) : tag.line ∈ es.map (·.2.line) :=
      List.mem_map.mpr ⟨e, hes, hline⟩
    rcases List.mem_append.mp he with he | he
    · exact hfirst _ (hmem he) _ List.mem_cons_self rfl
    · exact hsecond (hmem he)
  have hsame (es : List (Nat × Tag)) (hes : ∀ e ∈ es, e.2.line ≠ tag.line) :
      es.map (Prod.map id (setText tag.line text)) = es := by
    refine (List.map_congr_left fun e he => ?_).trans (List.map_id es)
    simp [Prod.map, setText, hes e he]
  rw [List.map_append, List.map_cons, hsame first fun e he => hother e (List.mem_append_left _ he),
    hsame second fun e he => hother e (List.mem_append_right _ he)]
  simp [setText]

/-- Blocks of text are opaque and taken whole. An element whose modifiers end with a lone `.` has no
children, and its text is what stands after the modifiers and in the lines below them, up to the
first line that is neither blank nor deeper than the element. Any other lines in their place, as
many of them and all blank or deeper, change the text of this element and nothing else. -/
theorem block_is_opaque (source : Text) (o : Options) (elements : List Element) (e : Element)
    (depth : Nat) (modifiers rest : Text) (hsource : Tabbed source)
    (hread : read source o = .ok elements) (he : StandsAt depth e elements)
    (hscan : scanModifiers (afterName (codeOf source) e.tag) = some (modifiers, rest))
    (hblock : announcesBlock modifiers = true) :
    e.children = [] ∧ e.tag.isBlock = true ∧
      e.tag.text =
        blockText rest (blockLines source depth (modifiersEnd (codeOf source) e.tag)) ∧
      ((tags elements).map (·.line)).Nodup ∧
      ∀ lines : List Text,
        lines.length = (blockLines source depth (modifiersEnd (codeOf source) e.tag)).length →
        (∀ line ∈ lines, IsPrintedLine line ∧ isDeeper depth line = true) →
        read (withBlock source depth (modifiersEnd (codeOf source) e.tag) lines) o =
          .ok (mapTags (setText e.tag.line (blockText rest lines)) elements) := by
  obtain ⟨first, second, hflat⟩ := he.flatten_eq 0
  rw [Nat.zero_add] at hflat
  obtain ⟨before, junk, body, after, rfl, h⟩ := exists_blockOnWay hread hflat hscan hblock
  obtain ⟨later, hat⟩ := h.spelled.blockAt hblock hsource (by rw [h.code_eq])
  have hinside : ∀ c ∈ body.takeWhile inLine, inLine c = true := fun c hc =>
    List.mem_takeWhile_imp hc
  have hfirst : (body ++ '\n' :: after).takeWhile inLine = body.takeWhile inLine :=
    takeWhile_append_stop inLine_newline body after
  have hnodup := nodup_lines hread
  rw [h.modifiersEnd_eq, hat.blockLines_eq hinside]
  refine ⟨?_, h.isBlock, ?_, hnodup, ?_⟩
  · cases hchildren : e.children with
    | nil => rfl
    | cons child others =>
      obtain ⟨tag, children⟩ := child
      have hle : depth + 1 ≤ depth := h.head_le (by rw [hchildren]; rfl)
      omega
  · have hbody : Text.join "\n" (body.takeWhile inLine :: (Text.split '\n' body).tail) = body := by
      rw [← split_newline]
      exact Text.join_split body
    rw [blockText, hfirst, hbody, h.tag_eq]
    exact h.spelled.text_tagOf hblock o _ _
  · intro lines hlength hlines
    have hcode := hat.codeOf_withBlock hsource hinside fun line hline => (hlines line hline).1
    have hsplit : Text.split '\n' (Text.join "\n" (body.takeWhile inLine :: lines)) =
        body.takeWhile inLine :: lines := by
      refine Text.split_join (List.cons_ne_nil _ _) fun line hline => ?_
      rcases List.mem_cons.mp hline with rfl | hline
      · exact fun hc => inLine_eq_true.mp (hinside _ hc) rfl
      · exact (hlines line hline).1.not_mem
    rw [blockText, hfirst]
    generalize Text.join "\n" (body.takeWhile inLine :: lines) = body' at hcode hsplit ⊢
    have hpieces := (split_newline body').symm.trans hsplit
    obtain ⟨hhead, htail⟩ := List.cons.inj hpieces
    have hcount : body'.count '\n' = body.count '\n' := by
      have hlen := length_split body'
      have hlen' := length_split body
      rw [hsplit, List.length_cons] at hlen
      rw [split_newline, List.length_cons] at hlen'
      omega
    obtain ⟨q, hq, hway⟩ := h.change_body (hcode.trans (by simp)) hhead (fun line hline => by
      rw [htail] at hline
      rw [endsBlock_eq_not_isDeeper (hlines line hline).1.not_mem, (hlines line hline).2]
      rfl) hcount
    refine read_eq_ok_iff.mpr ⟨q, hq, ?_⟩
    rw [flatten_mapTags, hflat, map_setText]
    · exact hway
    · rwa [tags, List.map_map, hflat] at hnodup

/-- Modifiers that go on in a second line, text after them, a bracket and a blank line in the block;
then a quote, a bracket and what looks like a tag in its place. -/
theorem block_is_opaque_at_item :
    ∃ elements e,
      read "ul\n\tli(a\nb). x\n\t\t(\n\n\tli z" { file := "i" } = .ok elements ∧
      StandsAt 1 e elements ∧ e.children = [] ∧ e.tag.text = some "x\n\t\t(" ∧
      read "ul\n\tli(a\nb). x\n\n\t\tp(\".\n\tli z" { file := "i" } =
        .ok (mapTags (setText e.tag.line (some "x\n\n\t\tp(\".")) elements) := by
  have hsource : Tabbed "ul\n\tli(a\nb). x\n\t\t(\n\n\tli z" := ⟨by decide, by decide⟩
  have hfirst : ((read "ul\n\tli(a\nb). x\n\t\t(\n\n\tli z" { file := "i" }).toOption.bind
      fun elements => elements.head?.bind fun list => list.children.head?.map (·.tag.line)) =
        some 2 := by
    decide +kernel
  cases hread : read "ul\n\tli(a\nb). x\n\t\t(\n\n\tli z" { file := "i" } with
  | error e =>
    rw [hread] at hfirst
    cases hfirst
  | ok elements =>
    rw [hread] at hfirst
    change (elements.head?.bind fun list => list.children.head?.map (·.tag.line)) = some 2 at hfirst
    obtain ⟨list, hlist, hitem⟩ := Option.bind_eq_some_iff.mp hfirst
    obtain ⟨e, he, hline⟩ := Option.map_eq_some_iff.mp hitem
    have hstands : StandsAt 1 e elements :=
      .child (List.mem_of_mem_head? hlist) (.root (List.mem_of_mem_head? he))
    have hend : modifiersEnd (codeOf "ul\n\tli(a\nb). x\n\t\t(\n\n\tli z") e.tag = 3 := by
      rw [modifiersEnd, afterName, hline]
      decide +kernel
    obtain ⟨hchildren, -, htext, -, hchange⟩ :=
      block_is_opaque "ul\n\tli(a\nb). x\n\t\t(\n\n\tli z" { file := "i" } elements e 1 "(a\nb)."
        " x\n\t\t(\n\n\tli z\n" hsource hread hstands
        (by rw [afterName, hline]; decide +kernel) (by decide +kernel)
    rw [hend] at htext hchange
    refine ⟨elements, e, rfl, hstands, hchildren, ?_, ?_⟩
    · rw [htext]
      decide +kernel
    · have hlines : ∀ line ∈ [[], "\t\tp(\".".toList],
          IsPrintedLine line ∧ isDeeper 1 line = true := by
        simp only [List.forall_mem_cons, List.not_mem_nil, false_implies, implies_true, and_true]
        refine ⟨⟨⟨by simp [OneLine], by decide⟩, by decide⟩, ⟨⟨?_, by decide⟩, by decide⟩⟩
        simp [OneLine]
      exact hchange [[], "\t\tp(\"."] (by decide +kernel) hlines

end OutlinePage.Outline
