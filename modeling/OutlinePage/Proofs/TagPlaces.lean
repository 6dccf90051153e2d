import OutlinePage.Proofs.FlatReading
import OutlinePage.Proofs.Modifiers

/-!
# Where tags lie in the code

A tag takes up lines of the code: the one with its name, those that its modifiers go on in, and
those of its block of text. All of this can be told from the code, the tag's place and its depth.
-/

namespace OutlinePage.Outline

/-- The first run of name characters in a line. -/
def firstWord (line : Text) : Text := (line.dropWhile (!isNameChar ·)).takeWhile isNameChar

/-- The tabs between the beginning of a tag's line and its first word, the tag's name. -/
def tabsBefore (code : Text) (tag : Tag) : Nat :=
  ((lineOf code tag.line.toNat).takeWhile (!isNameChar ·)).count '\t'

/-- The code after the first word of a tag's line, the tag's name. -/
def afterName (code : Text) (tag : Tag) : Text :=
  ((dropLines (tag.line.toNat - 1) code).dropWhile (!isNameChar ·)).dropWhile isNameChar

/-- The number of the line in which a tag's modifiers end. -/
def modifiersEnd (code : Text) (tag : Tag) : Nat :=
  match scanModifiers (afterName code tag) with
  | none => tag.line.toNat
  | some (modifiers, _) => tag.line.toNat + modifiers.count '\n'

/-- The line goes on with the modifiers of a tag in an earlier line. -/
def ContinuesModifiers (code : Text) (tag : Tag) (number : Nat) : Prop :=
  tag.line.toNat < number ∧ number ≤ modifiersEnd code tag

/-- The line lies in the block of text of a tag at the given depth: it comes after the modifiers,
and up to it all lines are blank or deeper than the tag. -/
def InsideBlock (code : Text) (depth : Nat) (tag : Tag) (number : Nat) : Prop :=
  tag.isBlock = true ∧ modifiersEnd code tag < number ∧
    ∀ i, modifiersEnd code tag < i → i ≤ number → endsBlock depth (lineOf code i) = false

/-- How a tag lies in the code: between whole lines before it and the code after the last line that
it takes up there are the characters in front of its name, the name, the modifiers and the body,
which is its text or its block of text. -/
structure Lies (code : Text) (depth : Nat) (tag : Tag) (before junk modifiers body after : Text) :
    Prop where
  code_eq : code = before ++ (junk ++ (tag.name ++ (modifiers ++ (body ++ '\n' :: after))))
  whole : Whole before
  filler : ∀ c ∈ junk, isFiller c = true
  word : ∀ c ∈ tag.name, isNameChar c = true
  isTag : isTagName tag.name = true
  wordEnd : ∀ c r, modifiers ++ (body ++ '\n' :: after) = c :: r → isNameChar c = false
  line : tag.line = ((before.count '\n' + 1 : Nat) : Int)
  column : tag.column = ((junk.length + 1 : Nat) : Int)
  scan : scanModifiers (modifiers ++ (body ++ '\n' :: after)) =
    some (modifiers, body ++ '\n' :: after)
  block : tag.isBlock = true → blockEnd depth (body ++ '\n' :: after) = '\n' :: after
  text : tag.isBlock = false → ∀ c ∈ body, inLine c = true

/-! ### Blocks of text -/

/-- Whether a line ends a block is seen from the line alone. -/
theorem endsBlock_takeWhile (depth : Nat) (rest : Text) :
    endsBlock depth (rest.takeWhile inLine) = endsBlock depth rest := by
  simp only [endsBlock, List.takeWhile_idem]

private theorem blockEnd_append (depth : Nat) (rest : Text) :
    ∃ body, rest = body ++ blockEnd depth rest := by
  fun_induction blockEnd depth rest with
  | case1 => exact ⟨[], rfl⟩
  | case2 => exact ⟨[], rfl⟩
  | case3 c r _ ih =>
    obtain ⟨body, hb⟩ := ih
    exact ⟨c :: body, by rw [List.cons_append, ← hb]⟩

/-- A block ends at a line that ends it, or with the code. -/
theorem blockEnd_stops {depth : Nat} {rest after : Text} (h : blockEnd depth rest = '\n' :: after) :
    after = [] ∨ endsBlock depth after = true := by
  fun_induction blockEnd depth rest with
  | case1 => cases h
  | case2 c r hc =>
    simp only [Bool.and_eq_true, decide_eq_true_eq, Bool.or_eq_true, List.isEmpty_iff] at hc
    simp only [List.cons.injEq] at h
    rw [← h.2]
    exact hc.2
  | case3 _ _ _ ih => exact ih h

private theorem blockEnd_cons {depth : Nat} {c : Char} {body after : Text}
    (h : blockEnd depth (c :: (body ++ '\n' :: after)) = '\n' :: after) :
    blockEnd depth (body ++ '\n' :: after) = '\n' :: after ∧
      (c = '\n' → endsBlock depth (body ++ '\n' :: after) = false) := by
  rw [blockEnd] at h
  split at h
  · have hl := congrArg List.length h
    simp only [List.length_cons, List.length_append] at hl
    omega
  · next hc =>
    refine ⟨h, ?_⟩
    rintro rfl
    simp only [decide_true, Bool.true_and, Bool.or_eq_true, not_or, Bool.not_eq_true] at hc
    exact hc.2

/-- No line of a block ends it. -/
theorem blockEnd_lines {depth : Nat} {body after : Text} (before : Text)
    (h : blockEnd depth (body ++ '\n' :: after) = '\n' :: after) (i : Nat)
    (hi : before.count '\n' + 1 < i) (hle : i ≤ before.count '\n' + 1 + body.count '\n') :
    endsBlock depth (lineOf (before ++ (body ++ '\n' :: after)) i) = false := by
  induction body generalizing before with
  | nil =>
    rw [List.count_nil] at hle
    omega
  | cons c body ih =>
    obtain ⟨hb, hc⟩ := blockEnd_cons h
    have hstep (hlt : (before ++ [c]).count '\n' + 1 < i)
        (hle' : i ≤ (before ++ [c]).count '\n' + 1 + body.count '\n') :
        endsBlock depth (lineOf (before ++ (c :: body ++ '\n' :: after)) i) = false := by
      have := ih (before ++ [c]) hb hlt hle'
      rwa [List.append_assoc] at this
    by_cases hn : c = '\n'
    · subst c
      have hcount : (before ++ ['\n']).count '\n' = before.count '\n' + 1 := by
        rw [List.count_append]
        rfl
      rw [List.count_cons_self] at hle
      by_cases he : i = before.count '\n' + 1 + 1
      · subst he
        have hline := lineOf_count (whole_append_newline before) (body ++ '\n' :: after)
        rw [hcount, List.append_assoc] at hline
        change lineOf (before ++ ('\n' :: (body ++ '\n' :: after))) _ = _ at hline
        rw [List.cons_append, hline, endsBlock_takeWhile]
        exact hc rfl
      · apply hstep
        · omega
        · omega
    · have hcount : (before ++ [c]).count '\n' = before.count '\n' := by
        rw [List.count_append, List.count_cons_of_ne hn]
        rfl
      rw [List.count_cons_of_ne hn] at hle
      apply hstep
      · omega
      · omega

/-! ### Facts about a tag's place -/

section Lies

variable {code before junk modifiers body after : Text} {depth : Nat} {tag : Tag}

/-- The line of a tag is the one after the line feeds before it. -/
theorem Lies.toNat_line (h : Lies code depth tag before junk modifiers body after) :
    tag.line.toNat = before.count '\n' + 1 := by
  rw [h.line, Int.toNat_natCast]

private theorem Lies.dropLines_eq (h : Lies code depth tag before junk modifiers body after) :
    dropLines (tag.line.toNat - 1) code =
      junk ++ (tag.name ++ (modifiers ++ (body ++ '\n' :: after))) := by
  rw [h.toNat_line, Nat.add_sub_cancel, h.code_eq]
  exact dropLines_count h.whole _

/-- A tag has a name. -/
theorem Lies.name_ne_nil (h : Lies code depth tag before junk modifiers body after) :
    tag.name ≠ [] := by
  intro hn
  have := h.isTag
  simp [isTagName, hn] at this

/-- The characters before a tag's name end where the name begins, whatever follows it. -/
theorem Lies.span_junk (h : Lies code depth tag before junk modifiers body after)
    (rest : Text) :
    (junk ++ (tag.name ++ rest)).takeWhile (!isNameChar ·) = junk ∧
      (junk ++ (tag.name ++ rest)).dropWhile (!isNameChar ·) = tag.name ++ rest := by
  have hj : ∀ c ∈ junk, (!isNameChar c) = true := by
    intro c hc
    have := h.filler c hc
    simp only [isFiller, Bool.and_eq_true] at this
    exact this.2
  obtain ⟨c, name, hn⟩ := List.exists_cons_of_ne_nil h.name_ne_nil
  have hc : (!isNameChar c) = false := by
    rw [h.word c (hn ▸ List.mem_cons_self)]
    rfl
  rw [hn]
  exact span_append hj hc (name ++ rest)

/-- After the name of a tag come its modifiers, its body and the code after it. -/
theorem Lies.afterName_eq (h : Lies code depth tag before junk modifiers body after) :
    afterName code tag = modifiers ++ (body ++ '\n' :: after) := by
  rw [afterName, h.dropLines_eq, (h.span_junk _).2, List.dropWhile_append_of_pos h.word]
  cases hr : modifiers ++ (body ++ '\n' :: after) with
  | nil => rfl
  | cons c r => rw [List.dropWhile_cons_of_neg (by rw [h.wordEnd c r hr]; decide)]

/-- The modifiers of a tag end as many lines below its name as they have line feeds. -/
theorem Lies.modifiersEnd_eq (h : Lies code depth tag before junk modifiers body after) :
    modifiersEnd code tag = before.count '\n' + 1 + modifiers.count '\n' := by
  rw [modifiersEnd, h.afterName_eq, h.scan, h.toNat_line]

/-- The line with a tag's name: the characters before the name, the name, and more. -/
theorem Lies.lineOf_eq (h : Lies code depth tag before junk modifiers body after) :
    lineOf code tag.line.toNat =
      junk ++ (tag.name ++ (modifiers ++ (body ++ '\n' :: after)).takeWhile inLine) := by
  rw [lineOf, h.dropLines_eq, List.takeWhile_append_of_pos, List.takeWhile_append_of_pos]
  · exact fun c hc => inLine_of_isNameChar (h.word c hc)
  · exact fun c hc => inLine_of_isFiller (h.filler c hc)

/-- The tabs before a tag are those among the characters before its name. -/
theorem Lies.tabsBefore_eq (h : Lies code depth tag before junk modifiers body after) :
    tabsBefore code tag = junk.count '\t' := by
  rw [tabsBefore, h.lineOf_eq, (h.span_junk _).1]

/-- A tag's name is the first word of its line. -/
theorem Lies.firstWord_eq (h : Lies code depth tag before junk modifiers body after) :
    firstWord (lineOf code tag.line.toNat) = tag.name := by
  have hstop : ((modifiers ++ (body ++ '\n' :: after)).takeWhile inLine).takeWhile isNameChar =
      [] := by
    cases hr : modifiers ++ (body ++ '\n' :: after) with
    | nil => rfl
    | cons d r =>
      have hd := h.wordEnd d r hr
      by_cases hi : inLine d = true
      · simp [hi, hd]
      · simp [hi]
  rw [firstWord, h.lineOf_eq, (h.span_junk _).2, List.takeWhile_append_of_pos h.word, hstop,
    List.append_nil]

/-- Each line between a tag's name and the end of its body belongs to its modifiers or its block. -/
theorem Lies.covers (h : Lies code depth tag before junk modifiers body after) {n : Nat}
    (hn : before.count '\n' + 1 < n)
    (hle : n ≤ before.count '\n' + 1 + modifiers.count '\n' + body.count '\n') :
    ContinuesModifiers code tag n ∨ InsideBlock code depth tag n := by
  by_cases hm : n ≤ before.count '\n' + 1 + modifiers.count '\n'
  · left
    rw [ContinuesModifiers, h.toNat_line, h.modifiersEnd_eq]
    exact ⟨hn, hm⟩
  · right
    have hb : tag.isBlock = true := by
      rw [← Bool.not_eq_false]
      intro hf
      rw [count_newline_eq_zero (h.text hf)] at hle
      omega
    rw [InsideBlock, h.modifiersEnd_eq]
    refine ⟨hb, by omega, ?_⟩
    intro i hi hin
    have hc : (before ++ (junk ++ (tag.name ++ modifiers))).count '\n' =
        before.count '\n' + modifiers.count '\n' := by
      rw [List.count_append, List.count_append, List.count_append,
        count_newline_eq_zero fun c hc => inLine_of_isFiller (h.filler c hc),
        count_newline_eq_zero fun c hc => inLine_of_isNameChar (h.word c hc)]
      omega
    have hl := blockEnd_lines (before ++ (junk ++ (tag.name ++ modifiers))) (h.block hb) i
      (by omega) (by omega)
    rwa [List.append_assoc, List.append_assoc, List.append_assoc, ← h.code_eq] at hl

/-- The place after the lines that a tag takes up. -/
theorem Lies.code_eq_after (h : Lies code depth tag before junk modifiers body after) :
    code = (before ++ (junk ++ (tag.name ++ (modifiers ++ body))) ++ ['\n']) ++ after := by
  rw [h.code_eq]
  simp only [List.append_assoc, List.singleton_append]

/-- After a tag comes the line below its modifiers and its body. -/
theorem Lies.count_after (h : Lies code depth tag before junk modifiers body after) :
    (before ++ (junk ++ (tag.name ++ (modifiers ++ body))) ++ ['\n']).count '\n' =
      before.count '\n' + 1 + modifiers.count '\n' + body.count '\n' := by
  have hj : junk.count '\n' = 0 :=
    count_newline_eq_zero fun c hc => inLine_of_isFiller (h.filler c hc)
  have hw : tag.name.count '\n' = 0 :=
    count_newline_eq_zero fun c hc => inLine_of_isNameChar (h.word c hc)
  simp only [List.count_append, hj, hw, List.count_singleton_self]
  omega

/-- The lines after a tag's body belong neither to its modifiers nor to its block. -/
theorem Lies.leaves (h : Lies code depth tag before junk modifiers body after) {n : Nat}
    (hn : before.count '\n' + 1 + modifiers.count '\n' + body.count '\n' < n)
    (hafter : after ≠ []) :
    ¬ ContinuesModifiers code tag n ∧ ¬ InsideBlock code depth tag n := by
  rw [ContinuesModifiers, InsideBlock, h.modifiersEnd_eq]
  refine ⟨by omega, ?_⟩
  rintro ⟨hb, -, hall⟩
  have hends : endsBlock depth after = true :=
    (blockEnd_stops (h.block hb)).resolve_left hafter
  have hline := lineOf_count
    (whole_append_newline (before ++ (junk ++ (tag.name ++ (modifiers ++ body))))) after
  rw [← h.code_eq_after, h.count_after] at hline
  have := hall (before.count '\n' + 1 + modifiers.count '\n' + body.count '\n' + 1) (by omega)
    (by omega)
  rw [hline, endsBlock_takeWhile, hends] at this
  cases this

end Lies

/-! ### What is read lies in the code -/

/-- The rest of whole lines is made of whole lines. -/
theorem whole_of_append {t rest : Text} (h : Whole (t ++ rest)) : Whole rest := by
  rcases List.eq_nil_or_concat rest with rfl | ⟨r, c, rfl⟩
  · exact whole_nil
  · rcases h with h | ⟨u, h⟩
    · simp at h
    · rw [List.concat_eq_append, ← List.append_assoc] at h
      have hc : [c] = ['\n'] := (List.append_inj' h rfl).2
      rw [List.concat_eq_append, hc]
      exact whole_append_newline r

/-- Within whole lines the end of the line is never missing. -/
theorem dropWhile_inLine_of_whole {t : Text} (h : Whole t) (hne : t ≠ []) :
    ∃ r, t.dropWhile inLine = '\n' :: r := by
  rcases dropWhile_inLine_cases t with hn | hr
  · exfalso
    rcases h with h | ⟨u, rfl⟩
    · exact hne h
    · have := List.dropWhile_eq_nil_iff.mp hn '\n' (by simp)
      simp at this
  · exact hr

private theorem blockEnd_of_whole (depth : Nat) {t : Text} (h : Whole t) (hne : t ≠ []) :
    ∃ r, blockEnd depth t = '\n' :: r := by
  rcases blockEnd_cases depth t with hn | hr
  · exfalso
    obtain ⟨u, rfl⟩ := h.resolve_left hne
    clear h hne
    induction u with
    | nil => simp [blockEnd] at hn
    | cons c u ih =>
      rw [List.cons_append, blockEnd] at hn
      split at hn
      · cases hn
      · exact ih hn
  · exact hr

/-- What reading a tag takes from the code. -/
theorem Source.readTag_eq_ok {s : Source} {depth : Nat} {m : Mark} {t : TagLine}
    (h : s.readTag depth m = .ok t) :
    ∃ modifiers rest, scanModifiers m.rest = some (modifiers, rest) ∧
      t.next = (if t.tag.isBlock then blockEnd depth rest else rest.dropWhile inLine) ∧
      t.tag.name = m.name ∧
      (t.tag.line, t.tag.column) =
        Prod.map Nat.cast Nat.cast (lineColumn s.code (s.offset m.rest - m.name.length)) := by
  unfold Source.readTag at h
  split at h
  · cases h
  · next modifiers rest hs =>
    simp only [Except.ok.injEq] at h
    subst h
    exact ⟨modifiers, rest, hs, rfl, rfl, rfl⟩

/-- A mark's name is followed by no further character of a name. -/
theorem lineMark_rest_head {rest : Text} {c : Char} {r : Text} (h : (lineMark rest).rest = c :: r) :
    isNameChar c = false := by
  have := List.head_dropWhile_not isNameChar (l := rest.dropWhile isFiller)
    (by change (lineMark rest).rest ≠ []; rw [h]; simp)
  change isNameChar ((lineMark rest).rest.head _) = false at this
  simpa [h] using this

/-- The place of a mark's name as line and column. -/
theorem lineColumn_lineMark {s : Source} {before rest : Text} (hcode : s.code = before ++ rest)
    (hbefore : Whole before) :
    lineColumn s.code (s.offset (lineMark rest).rest - (lineMark rest).name.length) =
      (before.count '\n' + 1, (rest.takeWhile isFiller).length + 1) := by
  have happ := lineMark_append rest
  have hoff : s.offset (lineMark rest).rest - (lineMark rest).name.length =
      before.length + (rest.takeWhile isFiller).length := by
    have hl := congrArg List.length happ
    simp only [List.length_append] at hl
    rw [Source.offset, hcode, List.length_append]
    omega
  have hline := lineColumn_eq hbefore
    (fun _ hc => inLine_of_isFiller (List.mem_takeWhile_imp (l := rest) hc))
    ((lineMark rest).name ++ (lineMark rest).rest)
  rwa [happ, ← hcode, ← hoff] at hline

/-- A tag read at the first word of a line lies in the code from there on. -/
theorem Source.readTag_lies {s : Source} {depth : Nat} {before rest : Text} {t : TagLine}
    (hcode : s.code = before ++ rest) (hbefore : Whole before) (hrest : Whole rest)
    (hname : isTagName (lineMark rest).name = true)
    (ht : s.readTag depth (lineMark rest) = .ok t) :
    ∃ modifiers body after, t.next = '\n' :: after ∧
      Lies s.code depth t.tag before (rest.takeWhile isFiller) modifiers body after := by
  obtain ⟨modifiers, r, hs, hnext, htag, hplace⟩ := Source.readTag_eq_ok ht
  rw [lineColumn_lineMark hcode hbefore, Prod.map_apply, Prod.mk.injEq] at hplace
  obtain ⟨hm, c, r', hr, -⟩ := scanFrom_eq_some hs
  have happ := lineMark_append rest
  have hne : r ≠ [] := by rw [hr]; simp
  have hwhole : Whole r := by
    apply whole_of_append (t := rest.takeWhile isFiller ++ ((lineMark rest).name ++ modifiers))
    rwa [List.append_assoc, List.append_assoc, ← hm, happ]
  -- The body is what a block takes up, or the rest of the line.
  obtain ⟨body, after, hbody, hafter, htext⟩ : ∃ body after, r = body ++ '\n' :: after ∧
      t.next = '\n' :: after ∧ (t.tag.isBlock = false → ∀ c ∈ body, inLine c = true) := by
    cases hb : t.tag.isBlock with
    | true =>
      obtain ⟨after, hafter⟩ := blockEnd_of_whole depth hwhole hne
      obtain ⟨body, hbody⟩ := blockEnd_append depth r
      rw [hb, if_pos rfl, hafter] at hnext
      rw [hafter] at hbody
      exact ⟨body, after, hbody, hnext, fun hf => by cases hf⟩
    | false =>
      obtain ⟨after, hafter⟩ := dropWhile_inLine_of_whole hwhole hne
      rw [hb, if_neg Bool.false_ne_true, hafter] at hnext
      refine ⟨r.takeWhile inLine, after, ?_, hnext, fun _ c hc => List.mem_takeWhile_imp hc⟩
      rw [← hafter, List.takeWhile_append_dropWhile]
  refine ⟨modifiers, body, after, hafter, ?_⟩
  rw [hbody] at hm hs
  constructor
  · rw [htag, ← hm, happ, hcode]
  · exact hbefore
  · exact fun _ hc => List.mem_takeWhile_imp hc
  · rw [htag]
    exact fun _ hc => List.mem_takeWhile_imp hc
  · rwa [htag]
  · intro c r hcr
    rw [← hm] at hcr
    exact lineMark_rest_head hcr
  · exact hplace.1
  · exact hplace.2
  · rwa [← hm]
  · intro hb
    rw [hb, if_pos rfl, hafter, hbody] at hnext
    exact hnext.symm
  · exact htext

end OutlinePage.Outline
