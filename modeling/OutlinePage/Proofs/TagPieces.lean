import OutlinePage.Proofs.TagPlaces
import OutlinePage.Proofs.Pieces

/-!
# The pieces of a tag

What is read of a tag depends on five pieces of the code: the characters in front of its name, the
name, the modifiers, the body and, for a block of text, whether the line after it ends the block. Of
everything before the tag only the number of lines counts, and of everything after it nothing.
-/

namespace OutlinePage.Outline

/-- Do the modifiers end with a lone `.`, which announces a block of text? -/
def announcesBlock (modifiers : Text) : Bool :=
  (splitModifiers (Text.strip modifiers)).getLast? == some "."

/-- The tag with these pieces, whose name begins at the given line and column. -/
def tagOf (o : Options) (name modifiers body : Text) (line column : Nat) : Tag :=
  let parts := splitModifiers (Text.strip modifiers)
  { name
    file := o.file
    attributes := readAttributes o parts
    classes := readClasses parts
    id := readId parts
    text := textOf (if announcesBlock modifiers then Text.strip (body.drop 1) else body.drop 1)
    isVoid := Vocabulary.voidTags.contains name
    isVerbatim := Vocabulary.verbatimTags.contains name
    isBlock := announcesBlock modifiers
    line
    column }

/-- A block of text at the given depth ends before the rest. -/
def StopsBlock (depth : Nat) (rest : Text) : Prop := rest = [] ∨ endsBlock depth rest = true

/-- The pieces of a tag at the given depth, from the beginning of its line on. The body is followed
by a line feed and by what comes after the tag. -/
structure Spelled (depth : Nat) (junk name modifiers body after : Text) : Prop where
  filler : ∀ c ∈ junk, isFiller c = true
  word : ∀ c ∈ name, isNameChar c = true
  isTag : isTagName name = true
  wordEnd : ∀ c r, modifiers ++ (body ++ '\n' :: after) = c :: r → isNameChar c = false
  scan : scanModifiers (modifiers ++ (body ++ '\n' :: after)) =
    some (modifiers, body ++ '\n' :: after)
  block : announcesBlock modifiers = true →
    StopsBlock depth after ∧ ∀ line ∈ (Text.split '\n' body).tail, endsBlock depth line = false
  text : announcesBlock modifiers = false → ∀ c ∈ body, inLine c = true

/-! ### Where a block ends -/

private theorem takeWhile_inLine_of_mem {t : Text} (h : '\n' ∈ t) (rest : Text) :
    (t ++ rest).takeWhile inLine = t.takeWhile inLine := by
  induction t with
  | nil => cases h
  | cons c t ih =>
    by_cases hc : c = '\n'
    · subst hc
      simp
    · have ht : '\n' ∈ t := (List.mem_cons.mp h).resolve_left (Ne.symm hc)
      simp [inLine_eq_true.mpr hc, ih ht]

/-- A run ends at the latest before a character that does not belong to it. -/
theorem takeWhile_append_stop {p : Char → Bool} {c : Char} (hc : p c = false) (t rest : Text) :
    (t ++ c :: rest).takeWhile p = t.takeWhile p := by
  induction t with
  | nil => simp [hc]
  | cons d t ih => by_cases hd : p d = true <;> simp [hd, ih]

/-- A text that a line feed follows has a first line. -/
theorem exists_first_line (t after : Text) :
    ∃ r, t ++ '\n' :: after = t.takeWhile inLine ++ '\n' :: r := by
  have happ := List.takeWhile_append_dropWhile (p := inLine) (l := t)
  rcases dropWhile_inLine_cases t with hlast | ⟨r, hmore⟩
  · rw [hlast, List.append_nil] at happ
    exact ⟨after, by rw [happ]⟩
  · refine ⟨r ++ '\n' :: after, ?_⟩
    rw [← List.cons_append, ← hmore, ← List.append_assoc, happ]

private theorem endsBlock_congr {depth : Nat} {t t' : Text}
    (h : t.takeWhile inLine = t'.takeWhile inLine) : endsBlock depth t = endsBlock depth t' := by
  rw [← endsBlock_takeWhile, h, endsBlock_takeWhile]

/-- Only the first line counts for whether a block ends. -/
theorem stopsBlock_append {depth : Nat} {t : Text} (h : '\n' ∈ t) (rest : Text) :
    StopsBlock depth (t ++ rest) ↔ endsBlock depth t = true := by
  have hne : t ++ rest ≠ [] := by
    intro hnil
    rw [(List.append_eq_nil_iff.mp hnil).1] at h
    cases h
  rw [StopsBlock, or_iff_right hne, endsBlock_congr (takeWhile_inLine_of_mem h rest)]

/-- The first piece between line feeds is the first line. -/
theorem split_newline (t : Text) :
    Text.split '\n' t = t.takeWhile inLine :: (Text.split '\n' t).tail := by
  induction t with
  | nil => rfl
  | cons c t ih =>
    by_cases hc : c = '\n'
    · subst hc
      rw [Text.split_cons_self]
      simp
    · rw [Text.split, if_neg hc, ih]
      simp [inLine_eq_true.mpr hc]

/-- More code after a line makes no difference to whether it ends a block. -/
theorem endsBlock_append_newline (depth : Nat) (t after : Text) :
    endsBlock depth (t ++ '\n' :: after) = endsBlock depth (t.takeWhile inLine) := by
  rw [endsBlock_takeWhile]
  apply endsBlock_congr
  exact takeWhile_append_stop inLine_newline t after

/-- A block stops before more code if the first line of that ends it. -/
theorem stopsBlock_append_newline {depth : Nat} {t after : Text} :
    StopsBlock depth (t ++ '\n' :: after) ↔ endsBlock depth (t.takeWhile inLine) = true := by
  rw [StopsBlock, or_iff_right (by simp), endsBlock_append_newline]

/-- A block ends before the first line that stops it, and not earlier. -/
theorem blockEnd_eq_iff {depth : Nat} {body after : Text} :
    blockEnd depth (body ++ '\n' :: after) = '\n' :: after ↔
      StopsBlock depth after ∧
        ∀ line ∈ (Text.split '\n' body).tail, endsBlock depth line = false := by
  induction body with
  | nil =>
    have hlong : blockEnd depth after ≠ '\n' :: after := by
      intro h
      have := length_blockEnd_le depth after
      rw [h, List.length_cons] at this
      omega
    have hstop : (after.isEmpty || endsBlock depth after) = true ↔ StopsBlock depth after := by
      simp [StopsBlock]
    by_cases h : StopsBlock depth after
    · simp [blockEnd, hstop.mpr h, h, Text.split]
    · simp [blockEnd, Bool.eq_false_iff.mpr (mt hstop.mp h), h, hlong, Text.split]
  | cons c body ih =>
    by_cases hc : c = '\n'
    · subst hc
      have hlong : '\n' :: (body ++ '\n' :: after) ≠ '\n' :: after := by
        intro h
        have := congrArg List.length h
        simp only [List.length_cons, List.length_append] at this
        omega
      have hne : (body ++ '\n' :: after).isEmpty = false := by simp
      rw [Text.split_cons_self, List.tail_cons, List.cons_append, blockEnd, hne,
        endsBlock_append_newline, split_newline body, List.forall_mem_cons]
      by_cases h : endsBlock depth (body.takeWhile inLine) = true
      · simp [h, hlong]
      · rw [Bool.not_eq_true] at h
        simp [h, ih]
    · rw [List.cons_append, blockEnd]
      have htail : (Text.split '\n' (c :: body)).tail = (Text.split '\n' body).tail := by
        rw [Text.split, if_neg hc, split_newline body]
        rfl
      simp [hc, htail, ih]

/-! ### Reading a tag in pieces -/

/-- Where the code goes on after a tag with a block of text, or after one without. -/
theorem next_eq_iff {depth : Nat} {modifiers body after : Text} :
    (if announcesBlock modifiers then blockEnd depth (body ++ '\n' :: after)
      else (body ++ '\n' :: after).dropWhile inLine) = '\n' :: after ↔
      (announcesBlock modifiers = true → StopsBlock depth after ∧
        ∀ line ∈ (Text.split '\n' body).tail, endsBlock depth line = false) ∧
      (announcesBlock modifiers = false → ∀ c ∈ body, inLine c = true) := by
  by_cases hb : announcesBlock modifiers = true
  · simp [hb, blockEnd_eq_iff]
  · rw [Bool.not_eq_true] at hb
    simp only [hb, Bool.false_eq_true, if_false, false_implies, true_and, forall_const]
    constructor
    · intro h c hc
      have hbody : body = (body ++ '\n' :: after).takeWhile inLine := by
        have happ := List.takeWhile_append_dropWhile (p := inLine) (l := body ++ '\n' :: after)
        rw [h] at happ
        exact (List.append_cancel_right happ).symm
      rw [hbody] at hc
      exact List.mem_takeWhile_imp hc
    · intro h
      exact (span_append h inLine_newline after).2

/-- A tag can be read unless its modifiers do not end. -/
theorem Source.scanModifiers_of_error {s : Source} {depth : Nat} {m : Mark} {e : SourceError}
    (h : s.readTag depth m = .error e) : scanModifiers m.rest = none := by
  rw [Source.readTag] at h
  split at h
  · assumption
  · cases h

/-- The tag at a mark whose modifiers and body are known. -/
theorem Source.readTag_of_scan {s : Source} {depth line column : Nat} {m : Mark}
    {modifiers body after : Text}
    (hscan : scanModifiers m.rest = some (modifiers, body ++ '\n' :: after))
    (hnext : (if announcesBlock modifiers then blockEnd depth (body ++ '\n' :: after)
      else (body ++ '\n' :: after).dropWhile inLine) = '\n' :: after)
    (hplace : lineColumn s.code (s.offset m.rest - m.name.length) = (line, column)) :
    s.readTag depth m =
      .ok ⟨tagOf s.options m.name modifiers body line column, '\n' :: after⟩ := by
  have htext : ((body ++ '\n' :: after).drop 1).take
      ((body ++ '\n' :: after).length - 1 - ('\n' :: after).length) = body.drop 1 := by
    cases body with
    | nil => simp
    | cons c body =>
      have hlen : (c :: body ++ '\n' :: after).length - 1 - ('\n' :: after).length =
          body.length := by
        simp only [List.length_append, List.length_cons]
        omega
      rw [hlen]
      simp
  rw [announcesBlock] at hnext
  rw [Source.readTag, hscan]
  simp only [hnext, hplace, htext]
  rfl

namespace Spelled

variable {depth : Nat} {junk name modifiers body after : Text}

/-- A tag has a name. -/
theorem name_ne_nil (h : Spelled depth junk name modifiers body after) : name ≠ [] := by
  rintro rfl
  have := h.isTag
  simp [isTagName] at this

/-- The lines of a tag are those of its modifiers and of its body. -/
theorem count_newline (h : Spelled depth junk name modifiers body after) :
    (junk ++ (name ++ (modifiers ++ body))).count '\n' =
      modifiers.count '\n' + body.count '\n' := by
  have hjunk := count_newline_eq_zero fun c hc => inLine_of_isFiller (h.filler c hc)
  have hname := count_newline_eq_zero fun c hc => inLine_of_isNameChar (h.word c hc)
  simp [hjunk, hname]

/-- The characters before the name end where it begins. -/
theorem span_junk (h : Spelled depth junk name modifiers body after) (rest : Text) :
    (junk ++ (name ++ rest)).takeWhile isFiller = junk ∧
      (junk ++ (name ++ rest)).dropWhile isFiller = name ++ rest := by
  obtain ⟨c, name, rfl⟩ := List.exists_cons_of_ne_nil h.name_ne_nil
  have hc : isFiller c = false := by simp [isFiller, h.word c List.mem_cons_self]
  exact span_append h.filler hc (name ++ rest)

/-- The name is the first word of the line. -/
theorem lineMark_eq (h : Spelled depth junk name modifiers body after) :
    lineMark (junk ++ (name ++ (modifiers ++ (body ++ '\n' :: after)))) =
      { tabs := junk.count '\t'
        lineStart := junk ++ (name ++ (modifiers ++ (body ++ '\n' :: after)))
        name
        rest := modifiers ++ (body ++ '\n' :: after) } := by
  obtain ⟨d, r, hr⟩ : ∃ d r, modifiers ++ (body ++ '\n' :: after) = d :: r := by
    apply List.exists_cons_of_ne_nil
    simp
  have hname := span_append h.word (h.wordEnd d r hr) r
  rw [← hr] at hname
  simp only [lineMark, h.span_junk, hname]

/-- What is read of the pieces. -/
theorem readTag (h : Spelled depth junk name modifiers body after) {s : Source} {before : Text}
    (hcode : s.code = before ++ (junk ++ (name ++ (modifiers ++ (body ++ '\n' :: after)))))
    (hbefore : Whole before) :
    s.readTag depth (lineMark (junk ++ (name ++ (modifiers ++ (body ++ '\n' :: after))))) =
      .ok ⟨tagOf s.options name modifiers body (before.count '\n' + 1) (junk.length + 1),
        '\n' :: after⟩ := by
  have hplace := lineColumn_lineMark hcode hbefore
  rw [(h.span_junk _).1, h.lineMark_eq] at hplace
  rw [h.lineMark_eq]
  exact Source.readTag_of_scan h.scan (next_eq_iff.mpr ⟨h.block, h.text⟩) hplace

/-- Pieces with another body that begins in the same way. -/
theorem change (h : Spelled depth junk name modifiers body after) {body' after' : Text}
    (hhead : (body' ++ ['\n']).head? = (body ++ ['\n']).head?)
    (hblock : announcesBlock modifiers = true → StopsBlock depth after' ∧
      ∀ line ∈ (Text.split '\n' body').tail, endsBlock depth line = false)
    (htext : announcesBlock modifiers = false → ∀ c ∈ body', inLine c = true) :
    Spelled depth junk name modifiers body' after' := by
  obtain ⟨c, r, hr⟩ : ∃ c r, body ++ ['\n'] = c :: r := List.exists_cons_of_ne_nil (by simp)
  obtain ⟨c', r', hr'⟩ : ∃ c r, body' ++ ['\n'] = c :: r := List.exists_cons_of_ne_nil (by simp)
  obtain rfl : c' = c := by simpa [hr, hr'] using hhead
  have hbody : body ++ '\n' :: after = c' :: (r ++ after) := by
    rw [← List.cons_append, ← hr, List.append_assoc]
    rfl
  have hbody' : body' ++ '\n' :: after' = c' :: (r' ++ after') := by
    rw [← List.cons_append, ← hr', List.append_assoc]
    rfl
  have hscan := h.scan
  have hend := h.wordEnd
  rw [hbody] at hscan hend
  refine ⟨h.filler, h.word, h.isTag, ?_, ?_, hblock, htext⟩
  · intro d u hu
    rw [hbody'] at hu
    cases modifiers with
    | nil => exact hend d (r ++ after) (by rw [← (List.cons.inj hu).1]; rfl)
    | cons x modifiers => exact hend d _ (by rw [← (List.cons.inj hu).1]; rfl)
  · rw [hbody']
    exact scanFrom_congr hscan _

/-- What comes after a tag makes no difference to it, as long as it stops a block of text. -/
theorem change_after (h : Spelled depth junk name modifiers body after) {after' : Text}
    (hstop : StopsBlock depth after → StopsBlock depth after') :
    Spelled depth junk name modifiers body after' :=
  h.change rfl (fun hb => (h.block hb).imp_left hstop) h.text

/-- A block of text may go on differently after its first line, if no line of it ends it. -/
theorem change_body (h : Spelled depth junk name modifiers body after)
    (hblock : announcesBlock modifiers = true) {body' : Text}
    (hfirst : body'.takeWhile inLine = body.takeWhile inLine)
    (hlines : ∀ line ∈ (Text.split '\n' body').tail, endsBlock depth line = false) :
    Spelled depth junk name modifiers body' after := by
  have hhead (t : Text) : (t ++ ['\n']).head? = (t.takeWhile inLine ++ ['\n']).head? := by
    cases t with
    | nil => rfl
    | cons c t =>
      by_cases hc : c = '\n'
      · subst hc
        rfl
      · simp [inLine_eq_true.mpr hc]
  refine h.change ?_ (fun hb => ⟨(h.block hb).1, hlines⟩) fun hb => ?_
  · rw [hhead body', hfirst, ← hhead body]
  · rw [hblock] at hb
    cases hb

end Spelled

/-- A tag that could be read has its pieces in the code. -/
theorem Source.exists_spelled {s : Source} {depth : Nat} {before rest : Text} {t : TagLine}
    (hcode : s.code = before ++ rest) (hbefore : Whole before) (hrest : Whole rest)
    (hname : isTagName (lineMark rest).name = true)
    (ht : s.readTag depth (lineMark rest) = .ok t) :
    ∃ junk name modifiers body after,
      rest = junk ++ (name ++ (modifiers ++ (body ++ '\n' :: after))) ∧
      Spelled depth junk name modifiers body after ∧
      t = ⟨tagOf s.options name modifiers body (before.count '\n' + 1) (junk.length + 1),
        '\n' :: after⟩ := by
  obtain ⟨modifiers, body, after, hnext, lies⟩ :=
    Source.readTag_lies hcode hbefore hrest hname ht
  have happ : rest = rest.takeWhile isFiller ++
      (t.tag.name ++ (modifiers ++ (body ++ '\n' :: after))) :=
    List.append_cancel_left (hcode.symm.trans lies.code_eq)
  have hmark : (lineMark rest).rest = modifiers ++ (body ++ '\n' :: after) := by
    obtain ⟨-, -, -, -, hread, -⟩ := Source.readTag_eq_ok ht
    have hline := lineMark_append rest
    rw [← hread] at hline
    exact List.append_cancel_left (List.append_cancel_left (hline.trans happ))
  have hscan := lies.scan
  rw [← hmark] at hscan
  have hafter : (if announcesBlock modifiers then blockEnd depth (body ++ '\n' :: after)
      else (body ++ '\n' :: after).dropWhile inLine) = '\n' :: after := by
    refine Eq.trans ?_ hnext
    rw [Source.readTag, hscan] at ht
    cases ht
    rfl
  obtain ⟨hblock, htext⟩ := next_eq_iff.mp hafter
  have hspelled : Spelled depth (rest.takeWhile isFiller) t.tag.name modifiers body after :=
    ⟨lies.filler, lies.word, lies.isTag, lies.wordEnd, lies.scan, hblock, htext⟩
  refine ⟨_, _, modifiers, body, after, happ, hspelled, ?_⟩
  have hread := hspelled.readTag (hcode.trans (congrArg (before ++ ·) happ)) hbefore
  rw [← happ, ht, Except.ok.injEq] at hread
  exact hread

end OutlinePage.Outline
