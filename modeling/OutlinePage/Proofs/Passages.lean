import OutlinePage.Proofs.IndentationTree
import OutlinePage.Proofs.TagPieces

/-!
# Ways through the lines

Reading goes from line to line: it passes over a line without a tag, or takes a tag with all lines
that it takes up. A way from one place to another depends only on the lines between them and, for
a block of text, on whether the line at its end stops the block. So a way stays when lines are put
before it, with the line numbers of its tags raised, and when the lines after it are changed.
-/

namespace OutlinePage.Outline

/-- A place at the beginning of a line: the number of the line, how deep the next tag can be at
most, and the rest of the code. -/
structure Spot where
  line : Nat
  room : Nat
  rest : Text

/-- A way from one place to another, with the tags that the lines between them give. -/
inductive Reaches (o : Options) : Spot → List (Nat × Tag) → Spot → Prop where
  | refl (p : Spot) : Reaches o p [] p
  | pass {n room : Nat} {line rest : Text} {tags : List (Nat × Tag)} {q : Spot}
    (inside : ∀ c ∈ line, inLine c = true) (noTag : isTagName (firstWord line) = false)
    (next : Reaches o ⟨n + 1, room, rest⟩ tags q) :
    Reaches o ⟨n, room, line ++ '\n' :: rest⟩ tags q
  | tag {n room depth : Nat} {junk name modifiers body after : Text} {tag : Tag}
    {tags : List (Nat × Tag)} {q : Spot} (depth_eq : depth = min (junk.count '\t') room)
    (tag_eq : tag = tagOf o name modifiers body n (junk.length + 1))
    (spelled : Spelled depth junk name modifiers body after)
    (next : Reaches o
      ⟨n + modifiers.count '\n' + body.count '\n' + 1, roomAfter depth tag, after⟩ tags q) :
    Reaches o ⟨n, room, junk ++ (name ++ (modifiers ++ (body ++ '\n' :: after)))⟩
      ((depth, tag) :: tags) q

/-- The tag some lines further down. -/
def movedTag (k : Nat) (tag : Tag) : Tag := { tag with line := tag.line + k }

/-- A line before whole lines makes whole lines. -/
theorem whole_line_append (line : Text) {rest : Text} (h : Whole rest) :
    Whole (line ++ '\n' :: rest) := by
  rcases h with rfl | ⟨t, rfl⟩
  · exact whole_append_newline line
  · exact Or.inr ⟨line ++ '\n' :: t, by simp⟩

/-- Lines in front of two places hide them from a block of text above. -/
theorem stopsBlock_change {depth : Nat} {between rest tail : Text} (h : Whole between)
    (hstop : StopsBlock depth rest → StopsBlock depth tail) :
    StopsBlock depth (between ++ rest) → StopsBlock depth (between ++ tail) := by
  rcases h with rfl | ⟨t, rfl⟩
  · exact hstop
  · have hmem : '\n' ∈ t ++ ['\n'] := by simp
    rw [stopsBlock_append hmem, stopsBlock_append hmem]
    exact id

/-- The first word of a line that begins with it. -/
theorem lineMark_of_first {rest : Text} (h : isTagName (rest.takeWhile isNameChar) = true) :
    rest.takeWhile isFiller = [] ∧ (lineMark rest).name = rest.takeWhile isNameChar := by
  cases rest with
  | nil => simp [isTagName] at h
  | cons c rest =>
    by_cases hc : isNameChar c = true
    · have hf : isFiller c = false := by simp [isFiller, hc]
      simp [lineMark, hf]
    · simp [isTagName, hc] at h

namespace Reaches

variable {o : Options} {p q r : Spot} {tags tags' : List (Nat × Tag)}

/-- One way after the other is a way. -/
theorem trans (h : Reaches o p tags q) (h' : Reaches o q tags' r) :
    Reaches o p (tags ++ tags') r := by
  induction h with
  | refl => exact h'
  | pass inside noTag _ ih => exact .pass inside noTag (ih h')
  | tag depth_eq tag_eq spelled _ ih => exact .tag depth_eq tag_eq spelled (ih h')

/-- A way to a tag, the tag, and the way from there on. -/
theorem split {first second : List (Nat × Tag)} {depth : Nat} {tag : Tag}
    (h : Reaches o p (first ++ (depth, tag) :: second) q) :
    ∃ n room junk name modifiers body after,
      Reaches o p first ⟨n, room, junk ++ (name ++ (modifiers ++ (body ++ '\n' :: after)))⟩ ∧
      depth = min (junk.count '\t') room ∧
      tag = tagOf o name modifiers body n (junk.length + 1) ∧
      Spelled depth junk name modifiers body after ∧
      Reaches o ⟨n + modifiers.count '\n' + body.count '\n' + 1, roomAfter depth tag, after⟩
        second q := by
  generalize htags : first ++ (depth, tag) :: second = tags at h
  induction h generalizing first with
  | refl => simp at htags
  | pass inside noTag _ ih =>
    obtain ⟨n, room, junk, name, modifiers, body, after, hway, hrest⟩ := ih htags
    exact ⟨n, room, junk, name, modifiers, body, after, .pass inside noTag hway, hrest⟩
  | tag depth_eq tag_eq spelled next ih =>
    cases first with
    | nil =>
      obtain ⟨⟨rfl, rfl⟩, rfl⟩ : (_ = _ ∧ _ = _) ∧ _ = _ := by
        simpa only [List.nil_append, List.cons.injEq, Prod.mk.injEq] using htags
      exact ⟨_, _, _, _, _, _, _, .refl _, depth_eq, tag_eq, spelled, next⟩
    | cons e first =>
      obtain ⟨rfl, hothers⟩ := List.cons.inj htags
      obtain ⟨n, room, junk, name, modifiers, body, after, hway, hrest⟩ := ih hothers
      exact ⟨n, room, junk, name, modifiers, body, after, .tag depth_eq tag_eq spelled hway, hrest⟩

/-- The first tag of a way is no deeper than there is room for it. -/
theorem head_le {depth : Nat} {tag : Tag} (h : Reaches o p ((depth, tag) :: tags) q) :
    depth ≤ p.room := by
  generalize hfirst : (depth, tag) :: tags = first at h
  induction h with
  | refl => cases hfirst
  | pass _ _ _ ih => exact ih hfirst
  | tag depth_eq _ _ _ _ =>
    obtain ⟨⟨rfl, -⟩, -⟩ : (_ = _ ∧ _ = _) ∧ _ = _ := by
      simpa only [List.cons.injEq, Prod.mk.injEq] using hfirst
    rw [depth_eq]
    exact Nat.min_le_right _ _

/-- Whole lines lie between the two ends of a way. With other lines at its far end the way stays, if
these stop the blocks of text that the lines there stopped. -/
theorem change_tail (h : Reaches o p tags q) :
    ∃ between, p.rest = between ++ q.rest ∧ Whole between ∧ q.line = p.line + between.count '\n' ∧
      ∀ tail, (∀ depth, StopsBlock depth q.rest → StopsBlock depth tail) →
        Reaches o ⟨p.line, p.room, between ++ tail⟩ tags ⟨q.line, q.room, tail⟩ := by
  induction h with
  | refl p => exact ⟨[], rfl, whole_nil, rfl, fun tail _ => .refl _⟩
  | @pass n room line rest tags q inside noTag next ih =>
    obtain ⟨between, rfl, hwhole, hline, hchange⟩ := ih
    refine ⟨line ++ '\n' :: between, ?_, whole_line_append line hwhole, ?_, fun tail hstop => ?_⟩
    · simp
    · have hcount := count_newline_eq_zero inside
      simp only [hline, List.count_append, hcount, List.count_cons_self]
      omega
    · rw [List.append_assoc, List.cons_append]
      exact .pass inside noTag (hchange tail hstop)
  | @tag n room depth junk name modifiers body after tag tags q depth_eq tag_eq spelled next ih =>
    obtain ⟨between, rfl, hwhole, hline, hchange⟩ := ih
    refine ⟨(junk ++ (name ++ (modifiers ++ body))) ++ '\n' :: between, ?_,
      whole_line_append _ hwhole, ?_, fun tail hstop => ?_⟩
    · simp
    · simp only [hline, @List.count_append _ _ _ _ ('\n' :: between), spelled.count_newline,
        List.count_cons_self]
      omega
    · have hspelled : Spelled depth junk name modifiers body (between ++ tail) :=
        spelled.change_after (stopsBlock_change hwhole (hstop depth))
      simp only [List.append_assoc, List.cons_append]
      exact .tag depth_eq tag_eq hspelled (hchange tail hstop)

/-- The same way some lines further down. -/
theorem movedDown (k : Nat) (h : Reaches o p tags q) :
    Reaches o ⟨p.line + k, p.room, p.rest⟩ (tags.map (Prod.map id (movedTag k)))
      ⟨q.line + k, q.room, q.rest⟩ := by
  induction h with
  | refl p => exact .refl _
  | pass inside noTag _ ih =>
    rw [Nat.add_right_comm] at ih
    exact .pass inside noTag ih
  | @tag n room depth junk name modifiers body after tag tags q depth_eq tag_eq spelled _ ih =>
    have hline : n + modifiers.count '\n' + body.count '\n' + 1 + k =
        n + k + modifiers.count '\n' + body.count '\n' + 1 := by omega
    rw [hline] at ih
    refine .tag depth_eq ?_ spelled ih
    rw [tag_eq]
    simp [movedTag, tagOf]

/-- A tag that begins in the first column can have any room. -/
theorem change_room {n room : Nat} {rest : Text} (h : Reaches o ⟨n, room, rest⟩ tags q)
    (hfirst : isTagName (rest.takeWhile isNameChar) = true) (room' : Nat) :
    ∃ room'', Reaches o ⟨n, room', rest⟩ tags ⟨q.line, room'', q.rest⟩ := by
  obtain ⟨hjunk, hname⟩ := lineMark_of_first hfirst
  generalize hp : (⟨n, room, rest⟩ : Spot) = p at h
  cases h with
  | refl =>
    subst hp
    exact ⟨room', .refl _⟩
  | pass inside noTag next =>
    obtain ⟨rfl, rfl, rfl⟩ := Spot.mk.inj hp
    rw [lineMark_name, (span_append inside inLine_newline _).1] at hname
    rw [hname, hfirst] at noTag
    cases noTag
  | tag depth_eq tag_eq spelled next =>
    obtain ⟨rfl, rfl, rfl⟩ := Spot.mk.inj hp
    rw [(spelled.span_junk _).1] at hjunk
    subst hjunk
    refine ⟨_, .tag ?_ tag_eq spelled next⟩
    simp [depth_eq]

end Reaches

/-! ### Ways that reading takes -/

/-- The modifiers of the tag at the place do not end. -/
def Breaks (rest : Text) : Prop :=
  isTagName (lineMark rest).name = true ∧ scanModifiers (lineMark rest).rest = none

private theorem Breaks.ne_nil {rest : Text} (h : Breaks rest) : rest ≠ [] := by
  rintro rfl
  have hname := h.1
  simp [lineMark, isTagName] at hname

/-- The mistake of modifiers that do not end, in the given line and column. -/
def unmatchedAt (file : Text) (line column : Nat) : SourceError :=
  ⟨.unmatchedNest, file, Text.ofNat line ++ ":" ++ Text.ofNat column⟩

/-- The column of the first character after the first word of the line at the place. -/
def columnAfterName (rest : Text) : Nat :=
  (rest.takeWhile isFiller).length + (lineMark rest).name.length + 1

namespace Source

variable {s : Source} {before rest : Text}

private theorem mistakeAt_lineMark (hcode : s.code = before ++ rest) (hbefore : Whole before) :
    s.mistakeAt (lineMark rest).rest .unmatchedNest =
      unmatchedAt s.options.file (before.count '\n' + 1) (columnAfterName rest) := by
  have happ := lineMark_append rest
  have hoff : s.offset (lineMark rest).rest =
      before.length + (rest.takeWhile isFiller ++ (lineMark rest).name).length := by
    have hl := congrArg List.length happ
    simp only [List.length_append] at hl
    rw [offset, hcode, List.length_append, List.length_append]
    omega
  have hinside : ∀ c ∈ rest.takeWhile isFiller ++ (lineMark rest).name, inLine c = true := by
    intro c hc
    rcases List.mem_append.mp hc with hc | hc
    · exact inLine_of_isFiller (List.mem_takeWhile_imp hc)
    · exact inLine_of_isNameChar (List.mem_takeWhile_imp hc)
  have hplace := lineColumn_eq hbefore hinside (lineMark rest).rest
  rw [List.append_assoc, happ, ← hcode, ← hoff] at hplace
  rw [mistakeAt, hplace, unmatchedAt, columnAfterName, List.length_append]

private theorem readTag_of_breaks (hcode : s.code = before ++ rest) (hbefore : Whole before)
    (h : scanModifiers (lineMark rest).rest = none) (depth : Nat) :
    s.readTag depth (lineMark rest) =
      .error (unmatchedAt s.options.file (before.count '\n' + 1) (columnAfterName rest)) := by
  rw [readTag, h, mistakeAt_lineMark hcode hbefore]

/-- Where a way begins, reading gives its tags and goes on at its end. -/
theorem scanLines_of_reaches {p q : Spot} {tags : List (Nat × Tag)}
    (h : Reaches s.options p tags q) (hcode : s.code = before ++ p.rest) (hbefore : Whole before)
    (hline : p.line = before.count '\n' + 1) :
    s.scanLines p.room p.rest = (s.scanLines q.room q.rest).map (tags ++ ·) := by
  induction h generalizing before with
  | refl p => cases s.scanLines p.room p.rest <;> rfl
  | @pass n room line rest tags q inside noTag next ih =>
    obtain ⟨htake, hdrop⟩ := span_append inside inLine_newline rest
    have hname : isTagName (lineMark (line ++ '\n' :: rest)).name = false := by
      rwa [lineMark_name, htake]
    have hnext : nextLine (line ++ '\n' :: rest) = rest := by rw [nextLine, hdrop]; rfl
    rw [scanLines_pass s room hname, hnext]
    dsimp only at hcode hline
    have hcode' : s.code = (before ++ line ++ ['\n']) ++ rest := by simp [hcode]
    refine ih hcode' (whole_append_newline _) ?_
    simp [hline, count_newline_eq_zero inside]
  | @tag n room depth junk name modifiers body after tag tags q depth_eq tag_eq spelled next ih =>
    dsimp only at hcode hline
    subst hline
    have hmark := spelled.lineMark_eq
    have hread := spelled.readTag hcode hbefore
    rw [← tag_eq, depth_eq, hmark] at hread
    have hcode' : s.code =
        (before ++ (junk ++ (name ++ (modifiers ++ body))) ++ ['\n']) ++ after := by
      simp [hcode]
    have hrest := ih hcode' (whole_append_newline _) (by
      rw [List.count_append, List.count_append, spelled.count_newline, List.count_singleton_self]
      dsimp only
      omega)
    rw [scanLines_tag s room (by rw [hmark]; exact spelled.isTag) (by rw [hmark]; exact hread),
      hmark, ← depth_eq]
    simp only [List.drop_one, List.tail_cons, hrest]
    cases s.scanLines q.room q.rest <;> rfl

/-- Reading the lines from a place on takes a way to the end of the code, or to a tag whose
modifiers do not end. -/
theorem exists_reaches (room : Nat) (hcode : s.code = before ++ rest) (hbefore : Whole before)
    (hrest : Whole rest) :
    ∃ tags n room' rest', (rest' = [] ∨ Breaks rest') ∧
      Reaches s.options ⟨before.count '\n' + 1, room, rest⟩ tags ⟨n, room', rest'⟩ := by
  induction hlen : rest.length using Nat.strong_induction_on generalizing rest room before with
  | _ k ih =>
    subst hlen
    rcases List.eq_nil_or_concat rest with rfl | ⟨init, last, hinit⟩
    · exact ⟨[], _, room, [], .inl rfl, .refl _⟩
    have hne : rest ≠ [] := by simp [hinit]
    cases hname : isTagName (lineMark rest).name with
    | false =>
      obtain ⟨next, hdrop⟩ := dropWhile_inLine_of_whole hrest hne
      have hline : rest = rest.takeWhile inLine ++ '\n' :: next := by
        rw [← hdrop, List.takeWhile_append_dropWhile]
      have hinside (c : Char) (hc : c ∈ rest.takeWhile inLine) : inLine c = true :=
        List.mem_takeWhile_imp hc
      rw [lineMark_name] at hname
      generalize rest.takeWhile inLine = line at hline hinside hname
      subst hline
      have hcode' : s.code = (before ++ line ++ ['\n']) ++ next := by simp [hcode]
      have hnext : Whole next := whole_of_append (t := line ++ ['\n']) (by simpa using hrest)
      obtain ⟨tags, n, room', rest', hend, hway⟩ :=
        ih next.length (by simp; omega) room hcode' (whole_append_newline _) hnext rfl
      refine ⟨tags, n, room', rest', hend, .pass hinside hname ?_⟩
      simpa [count_newline_eq_zero hinside] using hway
    | true =>
      cases hread : s.readTag (min (lineMark rest).tabs room) (lineMark rest) with
      | error e =>
        exact ⟨[], _, room, rest, .inr ⟨hname, scanModifiers_of_error hread⟩, .refl _⟩
      | ok t =>
        obtain ⟨junk, name, modifiers, body, after, rfl, hspelled, rfl⟩ :=
          exists_spelled hcode hbefore hrest hname hread
        generalize hdepth : min (lineMark _).tabs room = depth at hspelled
        generalize htag : tagOf s.options name modifiers body _ _ = tag at hread
        rw [hspelled.lineMark_eq] at hdepth
        have hcode' : s.code =
            (before ++ (junk ++ (name ++ (modifiers ++ body))) ++ ['\n']) ++ after := by
          simp [hcode]
        have hafter : Whole after :=
          whole_of_append (t := junk ++ (name ++ (modifiers ++ body)) ++ ['\n'])
            (by simpa using hrest)
        obtain ⟨tags, n, room', rest', hend, hway⟩ :=
          ih after.length (by simp; omega) (roomAfter depth tag) hcode' (whole_append_newline _)
            hafter rfl
        rw [List.count_append, List.count_append, hspelled.count_newline,
          List.count_singleton_self] at hway
        refine ⟨(depth, tag) :: tags, n, room', rest', hend,
          .tag hdepth.symm htag.symm hspelled ?_⟩
        convert hway using 2
        omega

/-- What reading gives where a way leads to the end of the code, or to a tag whose modifiers do not
end. -/
theorem scanLines_of_end {room n room' : Nat} {rest' : Text} {tags : List (Nat × Tag)}
    (hcode : s.code = before ++ rest) (hbefore : Whole before)
    (hway : Reaches s.options ⟨before.count '\n' + 1, room, rest⟩ tags ⟨n, room', rest'⟩)
    (hend : rest' = [] ∨ Breaks rest') :
    s.scanLines room rest =
      if rest' = [] then .ok tags
      else .error (unmatchedAt s.options.file n (columnAfterName rest')) := by
  rw [scanLines_of_reaches hway hcode hbefore rfl]
  obtain ⟨between, hrest, hbetween, hline, -⟩ := hway.change_tail
  dsimp only at hrest hline
  rcases hend with rfl | ⟨hname, hscan⟩
  · simp [Except.map]
  · have hne : rest' ≠ [] := Breaks.ne_nil ⟨hname, hscan⟩
    have hplace : s.code = (before ++ between) ++ rest' := by
      rw [hcode, hrest, List.append_assoc]
    have hwhole : Whole (before ++ between) := by
      rcases hbetween with rfl | ⟨t, rfl⟩
      · rwa [List.append_nil]
      · rw [← List.append_assoc]
        exact whole_append_newline _
    have hread := readTag_of_breaks hplace hwhole hscan (min (lineMark rest').tabs room')
    rw [scanLines_error s room' hname hread, if_neg hne, hline, List.count_append]
    simp only [Except.map]
    congr 2
    omega

end Source

/-! ### Outlines by the ways through their lines -/

private theorem exists_way (source : Text) (o : Options) :
    ∃ tags q, (q.rest = [] ∨ Breaks q.rest) ∧ Reaches o ⟨1, 0, codeOf source⟩ tags q := by
  obtain ⟨tags, n, room, rest, hend, hway⟩ :=
    Source.exists_reaches (s := ⟨codeOf source, o⟩) 0 (List.nil_append (codeOf source)).symm
      whole_nil (whole_codeOf source)
  exact ⟨tags, ⟨n, room, rest⟩, hend, hway⟩

private theorem read_of_way {source : Text} {o : Options} {tags : List (Nat × Tag)} {q : Spot}
    (hway : Reaches o ⟨1, 0, codeOf source⟩ tags q) (hend : q.rest = [] ∨ Breaks q.rest) :
    (read source o).map (flatten 0) =
      if q.rest = [] then .ok tags
      else .error (unmatchedAt o.file q.line (columnAfterName q.rest)) := by
  rw [read_flat]
  exact Source.scanLines_of_end (s := ⟨codeOf source, o⟩) (List.nil_append (codeOf source)).symm
    whole_nil hway hend

/-- An outline is read as some elements if a way with their tags leads from its first line to its
end. -/
theorem read_eq_ok_iff {source : Text} {o : Options} {elements : List Element} :
    read source o = .ok elements ↔
      ∃ q, q.rest = [] ∧ Reaches o ⟨1, 0, codeOf source⟩ (flatten 0 elements) q := by
  constructor
  · intro h
    obtain ⟨tags, q, hend, hway⟩ := exists_way source o
    have hflat := read_of_way hway hend
    rw [h] at hflat
    split at hflat
    · next hq =>
      obtain rfl : flatten 0 elements = tags := Except.ok.inj hflat
      exact ⟨q, hq, hway⟩
    · cases hflat
  · rintro ⟨q, hq, hway⟩
    have hflat := read_of_way hway (.inl hq)
    rw [if_pos hq] at hflat
    cases h : read source o with
    | error e =>
      rw [h] at hflat
      cases hflat
    | ok others =>
      rw [h] at hflat
      rw [flatten_injective 0 (Except.ok.inj hflat)]

/-- An outline cannot be read if a way leads from its first line to a tag whose modifiers do not
end, and then the place after the name of that tag is named. -/
theorem read_eq_error_iff {source : Text} {o : Options} {e : SourceError} :
    read source o = .error e ↔
      ∃ tags q, Breaks q.rest ∧ Reaches o ⟨1, 0, codeOf source⟩ tags q ∧
        e = unmatchedAt o.file q.line (columnAfterName q.rest) := by
  constructor
  · intro h
    obtain ⟨tags, q, hend, hway⟩ := exists_way source o
    have hflat := read_of_way hway hend
    rw [h] at hflat
    split at hflat
    · cases hflat
    · next hq => exact ⟨tags, q, hend.resolve_left hq, hway, Except.error.inj hflat⟩
  · rintro ⟨tags, q, hq, hway, rfl⟩
    have hflat := read_of_way hway (.inr hq)
    rw [if_neg hq.ne_nil] at hflat
    cases h : read source o with
    | error e =>
      rw [h] at hflat
      rw [Except.error.inj hflat]
    | ok elements =>
      rw [h] at hflat
      cases hflat

end OutlinePage.Outline
