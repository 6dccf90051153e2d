import OutlinePage.Proofs.OffsetReading

/-!
# Reading always ends

However an outline is spelled, the reader that goes by offsets comes to an end: it never asks for a
character beyond the end of the code, it finds every line feed that it searches for, and its only
trouble are modifiers that do not end. A level that begins at a line feed stops further on, at the
beginning of a line or at the end of the code.
-/

namespace OutlinePage.Outline

/-- Up to a mark whole lines are passed over. -/
theorem nextMark_skips {rest : Text} {m : Mark} (h : nextMark 0 rest rest = some m) :
    ∃ skipped, rest = skipped ++ m.lineStart ∧ Whole skipped := by
  induction hlen : rest.length using Nat.strong_induction_on generalizing rest with
  | _ n ih =>
    subst hlen
    rw [nextMark_line] at h
    split at h
    · rcases dropWhile_inLine_cases rest with hlast | ⟨r, hmore⟩
      · simp [nextLine, hlast, nextMark] at h
      · have hnext : nextLine rest = r := by rw [nextLine, hmore]; rfl
        have hline : rest = rest.takeWhile inLine ++ '\n' :: r := by
          rw [← hmore, List.takeWhile_append_dropWhile]
        have hlt : r.length < rest.length := by
          rw [hline]
          simp only [List.length_append, List.length_cons]
          omega
        rw [hnext] at h
        obtain ⟨skipped, hr, hwhole⟩ := ih r.length hlt h rfl
        refine ⟨rest.takeWhile inLine ++ '\n' :: skipped, ?_, whole_line_append _ hwhole⟩
        rw [List.append_assoc, List.cons_append, ← hr]
        exact hline
    · cases h
      exact ⟨[], rfl, whole_nil⟩

namespace Offsets

variable {s : Source} {indent tabs : Nat} {pre rest name : Text} {elements : List Element}

/-! ### Steps of the loop -/

private theorem level_end (s : Source) (indent tabs : Nat) (name : Text) (elements : List Element) :
    level s indent s.code.length tabs name elements = pure (elements, s.code.length) := by
  rw [level_round, levelRound, if_neg (Nat.lt_irrefl _)]

private theorem level_word {word : Text} (hword : ∀ c ∈ word, isNameChar c = true)
    (hcode : s.code = pre ++ (word ++ rest)) :
    level s indent pre.length tabs name elements =
      level s indent (pre ++ word).length tabs (name ++ word) elements := by
  induction word generalizing pre name with
  | nil => simp
  | cons c word ih =>
    have hc := hword c List.mem_cons_self
    have hnext : level s indent (pre ++ [c]).length tabs (name ++ [c]) elements =
        level s indent (pre ++ [c] ++ word).length tabs (name ++ [c] ++ word) elements :=
      ih (fun x hx => hword x (List.mem_cons_of_mem c hx)) (by simp [hcode])
    rw [level_round, levelRound, if_pos (by simp [hcode]), hcode, List.cons_append, charAt_append,
      pure_bind, if_pos hc]
    simpa using hnext

private theorem level_filler {c : Char} {r : Text} (hc : isNameChar c = false)
    (hcode : s.code = pre ++ c :: r) :
    level s indent pre.length tabs [] elements =
      level s indent (pre ++ [c]).length
        (if c = '\t' then tabs + 1 else if c = '\n' then 0 else tabs) [] elements := by
  rw [level_round, levelRound, if_pos (by simp [hcode]), hcode, charAt_append, pure_bind, hc]
  simp

/-- Up to the next name, only tabs are counted. -/
theorem level_nextMark (lineStart : Text) (hcode : s.code = pre ++ rest) :
    level s indent pre.length tabs [] elements =
      match nextMark tabs lineStart rest with
      | none => pure (elements, s.code.length)
      | some m => level s indent (s.offset m.rest) m.tabs m.name elements := by
  fun_induction nextMark tabs lineStart rest generalizing pre with
  | case1 =>
    rw [List.append_nil] at hcode
    rw [← hcode, level_end]
  | case2 tabs lineStart c r hc =>
    have happ : (c :: r).takeWhile isNameChar ++ (c :: r).dropWhile isNameChar = c :: r :=
      List.takeWhile_append_dropWhile
    rw [← happ] at hcode
    rw [level_word (fun x hx => List.mem_takeWhile_imp hx) hcode]
    rw [← List.append_assoc] at hcode
    rw [List.nil_append, ← offset_eq hcode]
  | case3 tabs lineStart r hc ih =>
    have hcode' : s.code = (pre ++ ['\t']) ++ r := by simp [hcode]
    rw [level_filler (by simpa using hc) hcode, ← ih hcode']
    rfl
  | case4 tabs lineStart r hc htab ih =>
    have hcode' : s.code = (pre ++ ['\n']) ++ r := by simp [hcode]
    rw [level_filler (by simpa using hc) hcode, ← ih hcode']
    rfl
  | case5 tabs lineStart c r hc htab hnewline ih =>
    have hcode' : s.code = (pre ++ [c]) ++ r := by simp [hcode]
    rw [level_filler (by simpa using hc) hcode, ← ih hcode', if_neg htab, if_neg hnewline]

/-- At the end of a name it is decided what to do with it. -/
theorem level_named {c : Char} {r : Text} (hc : isNameChar c = false) (hname : name ≠ [])
    (hcode : s.code = pre ++ c :: r) :
    level s indent pre.length tabs name elements =
      (if Text.startsWith "//" name then do
        let j ← lineFeedFrom s.code pre.length
        level s indent j 0 [] elements
      else if tabs < indent then do
        let j ← lineFeedBefore s.code (pre.length - name.length)
        pure (elements, j + 1)
      else do
        let (tag, j) ← tagAt s indent name pre.length
        if tag.isBlock || s.code.length ≤ j + 1 then
          level s indent j 0 [] (elements ++ [⟨tag, []⟩])
        else do
          let (children, k) ← level s (indent + 1) j 0 [] []
          level s indent k 0 [] (elements ++ [⟨tag, children⟩])) := by
  have hempty : name.isEmpty = false := by simpa using hname
  have hchar : charAt s.code pre.length = pure c := by rw [hcode, charAt_append]
  rw [level_round, levelRound, if_pos (by simp [hcode]), hchar, pure_bind, hc, hempty]
  rfl

/-! ### Both readers -/

/-- A place where a level can begin: a line feed, or the beginning of a line, which is not the first
one for a level below another. -/
def CanBegin (indent : Nat) (pre rest : Text) : Prop :=
  (∃ r, rest = '\n' :: r) ∨ Whole pre ∧ (indent = 0 ∨ pre ≠ [])

/-- Both readers do the same from a place on. Either they find that the modifiers of a tag do not
end, or they read the same elements and stop at the same place, which is the beginning of a line;
and if they began at a line feed, the place lies further on. -/
inductive BothRead (s : Source) (indent : Nat) (pre rest : Text) : Prop where
  | refuse (e : SourceError) (unmatched : e.mistake = .unmatchedNest)
    (byRests : s.readLevel indent rest rest = .error e)
    (byOffsets : ∀ elements, level s indent pre.length 0 [] elements = throw (.mistake e))
  | stop (es : List Element) (between after : Text) (rest_eq : rest = between ++ after)
    (whole : Whole (pre ++ between)) (moves : (∃ r, rest = '\n' :: r) → between ≠ [])
    (byRests : s.readLevel indent rest rest = .ok (es, after))
    (byOffsets : ∀ elements, level s indent pre.length 0 [] elements =
      pure (elements ++ es, (pre ++ between).length))

/-- Both readers do the same from a place on if they pass from there to a place further on with the
same elements, and do the same from that place on. -/
theorem BothRead.of_next {crossed next : Text} (first : List Element)
    (h : BothRead s indent (pre ++ crossed) next) (hrest : rest = crossed ++ next)
    (hne : crossed ≠ [])
    (hrests : s.readLevel indent rest rest =
      (s.readLevel indent next next).map fun p => (first ++ p.1, p.2))
    (hoffsets : ∀ elements, level s indent pre.length 0 [] elements =
      level s indent (pre ++ crossed).length 0 [] (elements ++ first)) :
    BothRead s indent pre rest := by
  cases h with
  | refuse e unmatched byRests byOffsets =>
    refine .refuse e unmatched ?_ fun elements => ?_
    · rw [hrests, byRests]
      rfl
    · rw [hoffsets, byOffsets]
  | stop es between after rest_eq whole moves byRests byOffsets =>
    refine .stop (first ++ es) (crossed ++ between) after ?_ ?_ ?_ ?_ fun elements => ?_
    · rw [hrest, rest_eq, List.append_assoc]
    · rwa [← List.append_assoc]
    · simp [hne]
    · rw [hrests, byRests]
      rfl
    · rw [hoffsets, byOffsets, List.append_assoc, List.append_assoc]

/-- The next name after a place, behind some whole lines. -/
structure AtMark (s : Source) (indent : Nat) (pre rest skipped : Text) (m : Mark) : Prop where
  code_eq : s.code = pre ++ rest
  found : nextMark 0 rest rest = some m
  rest_eq : rest = skipped ++ m.lineStart
  line_eq : m = lineMark m.lineStart
  name_ne_nil : m.name ≠ []
  start : Whole (pre ++ skipped)
  below : indent = 0 ∨ pre ++ skipped ≠ []
  whole : Whole m.lineStart
  moves : (∃ r, rest = '\n' :: r) → skipped ≠ []

private theorem exists_atMark (hcode : s.code = pre ++ rest) (hwhole : Whole s.code)
    (hbegin : CanBegin indent pre rest) {m : Mark} (hm : nextMark 0 rest rest = some m) :
    ∃ skipped, AtMark s indent pre rest skipped m := by
  obtain ⟨skipped, hrest, hskipped⟩ := nextMark_skips hm
  obtain ⟨hline, hname, -⟩ := nextMark_eq_some hm
  have hmoves : (∃ r, rest = '\n' :: r) → skipped ≠ [] := by
    rintro ⟨r, rfl⟩ rfl
    -- A line that begins with a line feed has no first word.
    rw [List.nil_append] at hrest
    rw [hline, ← hrest] at hname
    exact hname rfl
  have hstart : Whole (pre ++ skipped) ∧ (indent = 0 ∨ pre ++ skipped ≠ []) := by
    rcases hskipped with rfl | ⟨t, rfl⟩
    · rw [List.append_nil]
      rcases hbegin with hfeed | hbegin
      · exact absurd rfl (hmoves hfeed)
      · exact hbegin
    · rw [← List.append_assoc]
      exact ⟨whole_append_newline _, .inr (by simp)⟩
  have hline' : Whole m.lineStart := by
    rw [hcode, hrest, ← List.append_assoc] at hwhole
    exact whole_of_append hwhole
  exact ⟨skipped, hcode, hm, hrest, hline, hname, hstart.1, hstart.2, hline', hmoves⟩

namespace AtMark

variable {skipped : Text} {m : Mark}

/-- The characters between the beginning of the line and the name. -/
abbrev junk (m : Mark) : Text := m.lineStart.takeWhile isFiller

private theorem lineStart_eq (h : AtMark s indent pre rest skipped m) :
    m.lineStart = junk m ++ (m.name ++ m.rest) := by
  have happ := lineMark_append m.lineStart
  rw [← h.line_eq] at happ
  exact happ.symm

private theorem code_eq_rest (h : AtMark s indent pre rest skipped m) :
    s.code = (pre ++ skipped ++ (junk m ++ m.name)) ++ m.rest := by
  rw [h.code_eq, h.rest_eq, h.lineStart_eq]
  simp

/-- The line of the mark ends. -/
theorem exists_lineFeed (h : AtMark s indent pre rest skipped m) :
    ∃ line r, m.rest = line ++ '\n' :: r ∧ ∀ c ∈ line, inLine c = true := by
  have hne : m.lineStart ≠ [] := by
    rw [h.lineStart_eq]
    simp [h.name_ne_nil]
  obtain ⟨r, hr⟩ := dropWhile_inLine_of_whole h.whole hne
  rw [dropWhile_lineMark, ← h.line_eq] at hr
  refine ⟨m.rest.takeWhile inLine, r, ?_, fun c hc => List.mem_takeWhile_imp hc⟩
  rw [← hr, List.takeWhile_append_dropWhile]

private theorem level_eq (h : AtMark s indent pre rest skipped m) (elements : List Element) :
    level s indent pre.length 0 [] elements =
      (if Text.startsWith "//" m.name then do
        let j ← lineFeedFrom s.code (pre ++ skipped ++ (junk m ++ m.name)).length
        level s indent j 0 [] elements
      else if m.tabs < indent then do
        let j ← lineFeedBefore s.code
          ((pre ++ skipped ++ (junk m ++ m.name)).length - m.name.length)
        pure (elements, j + 1)
      else do
        let (tag, j) ← tagAt s indent m.name (pre ++ skipped ++ (junk m ++ m.name)).length
        if tag.isBlock || s.code.length ≤ j + 1 then
          level s indent j 0 [] (elements ++ [⟨tag, []⟩])
        else do
          let (children, k) ← level s (indent + 1) j 0 [] []
          level s indent k 0 [] (elements ++ [⟨tag, children⟩])) := by
  obtain ⟨line, r, hrest, -⟩ := h.exists_lineFeed
  obtain ⟨c, r', hc⟩ : ∃ c r', m.rest = c :: r' := List.exists_cons_of_ne_nil (by simp [hrest])
  have hstop : isNameChar c = false := by
    have hmark : (lineMark m.lineStart).rest = c :: r' := by rw [← h.line_eq, hc]
    exact lineMark_rest_head hmark
  have hcode := h.code_eq_rest
  rw [level_nextMark rest h.code_eq, h.found]
  dsimp only
  rw [offset_eq hcode]
  rw [hc] at hcode
  exact level_named hstop h.name_ne_nil hcode

/-- A name in a line that stands above the level. -/
theorem bothRead_above (h : AtMark s indent pre rest skipped m)
    (hcomment : Text.startsWith "//" m.name = false) (htabs : m.tabs < indent) :
    BothRead s indent pre rest := by
  refine .stop [] skipped m.lineStart h.rest_eq h.start h.moves ?_ fun elements => ?_
  · rw [Source.readLevel_eq, h.found]
    dsimp only
    rw [hcomment, if_neg Bool.false_ne_true, if_pos htabs]
  · obtain ⟨t, ht⟩ : ∃ t, pre ++ skipped = t ++ ['\n'] := by
      have hne : pre ++ skipped ≠ [] := h.below.resolve_left (by omega)
      exact h.start.resolve_left hne
    have hinside : ∀ c ∈ junk m, inLine c = true := fun c hc =>
      inLine_of_isFiller (List.mem_takeWhile_imp hc)
    have hfeed := lineFeedBefore_append hinside t (m.name ++ m.rest)
    have hcode : s.code = t ++ '\n' :: (junk m ++ (m.name ++ m.rest)) := by
      rw [h.code_eq_rest, ht]
      simp
    have hstart : (pre ++ skipped ++ (junk m ++ m.name)).length - m.name.length =
        (t ++ '\n' :: junk m).length := by
      rw [ht]
      simp only [List.length_append, List.length_cons, List.length_nil]
      omega
    rw [h.level_eq, hcomment, if_neg Bool.false_ne_true, if_pos htabs, hstart, hcode, hfeed, ht]
    simp

/-- A comment, if the readers do the same after it. -/
theorem bothRead_comment (h : AtMark s indent pre rest skipped m)
    (hcomment : Text.startsWith "//" m.name = true)
    (ih : ∀ pre' rest', rest'.length < rest.length → s.code = pre' ++ rest' →
      CanBegin indent pre' rest' → BothRead s indent pre' rest') : BothRead s indent pre rest := by
  obtain ⟨line, r, hline, hinside⟩ := h.exists_lineFeed
  have hrest : rest = (skipped ++ (junk m ++ m.name) ++ line) ++ '\n' :: r := by
    rw [h.rest_eq, h.lineStart_eq, hline]
    simp
  have hne : skipped ++ (junk m ++ m.name) ++ line ≠ [] := by simp [h.name_ne_nil]
  have hcode : s.code = (pre ++ skipped ++ (junk m ++ m.name)) ++ (line ++ '\n' :: r) := by
    rw [h.code_eq_rest, hline]
  have hnext := ih (pre ++ (skipped ++ (junk m ++ m.name) ++ line)) ('\n' :: r)
    (by rw [hrest, List.length_append]; exact Nat.lt_add_of_pos_left (List.length_pos_iff.mpr hne))
    (by rw [h.code_eq, hrest, ← List.append_assoc]) (.inl ⟨r, rfl⟩)
  refine hnext.of_next [] hrest hne ?_ fun elements => ?_
  · rw [Source.readLevel_eq, h.found]
    dsimp only
    rw [if_pos hcomment, hline, (span_append hinside inLine_newline r).2,
      Source.readLevel_at_newline (.inr ⟨r, rfl⟩)]
    cases s.readLevel indent ('\n' :: r) ('\n' :: r) <;> rfl
  · have hfeed := lineFeedFrom_append hinside (pre ++ skipped ++ (junk m ++ m.name)) r
    rw [← hcode] at hfeed
    rw [h.level_eq, if_pos hcomment, hfeed, pure_bind, List.append_nil]
    simp

/-- A tag whose modifiers do not end. -/
theorem bothRead_unmatched (h : AtMark s indent pre rest skipped m)
    (hcomment : Text.startsWith "//" m.name = false) (htabs : ¬ m.tabs < indent)
    (hscan : scanModifiers m.rest = none) : BothRead s indent pre rest := by
  refine .refuse (s.mistakeAt m.rest .unmatchedNest) rfl ?_ fun elements => ?_
  · rw [Source.readLevel_eq, h.found]
    dsimp only
    rw [hcomment, if_neg Bool.false_ne_true, if_neg htabs, Source.readTag, hscan]
  · rw [h.level_eq, hcomment, if_neg Bool.false_ne_true, if_neg htabs,
      tagAt_of_unmatched h.code_eq_rest hscan]
    exact throw_bind _ _

/-- Both readers read the same tag, and find the same line feed after it. -/
theorem exists_crossed (h : AtMark s indent pre rest skipped m)
    (hcomment : Text.startsWith "//" m.name = false) {t : TagLine}
    (ht : s.readTag indent m = .ok t) :
    ∃ crossed after, rest = crossed ++ '\n' :: after ∧ crossed ≠ [] ∧ t.next = '\n' :: after ∧
      tagAt s indent m.name (pre ++ skipped ++ (junk m ++ m.name)).length =
        pure (t.tag, (pre ++ crossed).length) := by
  have hname : isTagName (lineMark m.lineStart).name = true := by
    rw [← h.line_eq, isTagName, hcomment]
    simp [h.name_ne_nil]
  have hstart : s.code = (pre ++ skipped) ++ m.lineStart := by
    rw [h.code_eq, h.rest_eq, List.append_assoc]
  obtain ⟨junk', name', modifiers, body, after, hline, hspelled, htag⟩ :=
    Source.exists_spelled hstart h.start h.whole hname (by rw [← h.line_eq]; exact ht)
  have hmark : m.name = name' := by
    have hm := h.line_eq
    rw [hline, hspelled.lineMark_eq] at hm
    rw [hm]
  have hjunk : junk m = junk' := by
    rw [junk, hline]
    exact (hspelled.span_junk _).1
  have hafter : Whole after := by
    have hwhole := h.whole
    rw [hline] at hwhole
    apply whole_of_append (t := junk' ++ (name' ++ (modifiers ++ body)) ++ ['\n'])
    simpa using hwhole
  have hread := tagAt_of_spelled hspelled (hstart.trans (congrArg _ hline)) h.start hafter
  refine ⟨skipped ++ (junk' ++ (name' ++ (modifiers ++ body))), after, ?_, ?_, ?_, ?_⟩
  · rw [h.rest_eq, hline]
    simp
  · simp [hspelled.name_ne_nil]
  · rw [htag]
  · rw [hmark, hjunk, hread, htag, List.append_assoc]

/-- A tag with the elements below it and those after it, if the readers do the same there. -/
theorem bothRead_tag (h : AtMark s indent pre rest skipped m)
    (hcomment : Text.startsWith "//" m.name = false) (htabs : ¬ m.tabs < indent) {t : TagLine}
    (ht : s.readTag indent m = .ok t)
    (ih : ∀ indent pre' rest', rest'.length < rest.length → s.code = pre' ++ rest' →
      CanBegin indent pre' rest' → BothRead s indent pre' rest') : BothRead s indent pre rest := by
  obtain ⟨crossed, after, hrest, hne, hnext, htag⟩ := h.exists_crossed hcomment ht
  have hcode : s.code = (pre ++ crossed) ++ '\n' :: after := by
    rw [h.code_eq, hrest, List.append_assoc]
  have hshorter : ('\n' :: after).length < rest.length := by
    rw [hrest, List.length_append]
    exact Nat.lt_add_of_pos_left (List.length_pos_iff.mpr hne)
  have hshort : s.code.length ≤ (pre ++ crossed).length + 1 ↔ ('\n' :: after).length ≤ 1 := by
    rw [hcode]
    simp only [List.length_append, List.length_cons]
    omega
  have hlevel := h.level_eq
  have hrests := s.readLevel_eq indent rest rest
  rw [h.found] at hrests
  simp only [hcomment, Bool.false_eq_true, if_false, htabs, htag, pure_bind, ht, hnext, hshort]
    at hlevel hrests
  by_cases hleaf : (t.tag.isBlock || decide (('\n' :: after).length ≤ 1)) = true
  · have hsiblings := ih indent (pre ++ crossed) ('\n' :: after) hshorter hcode (.inl ⟨after, rfl⟩)
    refine hsiblings.of_next [⟨t.tag, []⟩] hrest hne ?_ fun elements => ?_
    · rw [hrests, if_pos hleaf]
      dsimp only
      rw [if_pos hshorter]
      cases s.readLevel indent ('\n' :: after) ('\n' :: after) <;> rfl
    · rw [hlevel, if_pos hleaf]
  · cases ih (indent + 1) (pre ++ crossed) ('\n' :: after) hshorter hcode (.inl ⟨after, rfl⟩) with
    | refuse e unmatched byRests byOffsets =>
      refine .refuse e unmatched ?_ fun elements => ?_
      · rw [hrests, if_neg hleaf, byRests]
      · rw [hlevel, if_neg hleaf, byOffsets]
        exact throw_bind _ _
    | stop children between mid mid_eq whole moves byRests byOffsets =>
      have hmid : mid.length < rest.length := by
        have hlen := congrArg List.length mid_eq
        rw [List.length_append] at hlen
        omega
      have hcode' : s.code = (pre ++ crossed ++ between) ++ mid := by
        rw [hcode, mid_eq, List.append_assoc _ between]
      have hsiblings := ih indent (pre ++ crossed ++ between) mid hmid hcode'
        (.inr ⟨whole, .inr (by simp [hne])⟩)
      rw [List.append_assoc pre] at hsiblings
      refine hsiblings.of_next [⟨t.tag, children⟩] ?_ (by simp [hne]) ?_ fun elements => ?_
      · rw [hrest, mid_eq, List.append_assoc]
      · rw [hrests, if_neg hleaf, byRests]
        dsimp only
        rw [if_pos hmid]
        cases s.readLevel indent mid mid <;> rfl
      · rw [hlevel, if_neg hleaf, byOffsets, pure_bind, List.nil_append, List.append_assoc pre]

end AtMark

/-- From every place where a level can begin, both readers do the same. -/
theorem bothRead (hwhole : Whole s.code) (hcode : s.code = pre ++ rest)
    (hbegin : CanBegin indent pre rest) : BothRead s indent pre rest := by
  induction hlen : rest.length using Nat.strong_induction_on generalizing indent pre rest with
  | _ n ih =>
    subst hlen
    have ih' : ∀ indent pre' rest', rest'.length < rest.length → s.code = pre' ++ rest' →
        CanBegin indent pre' rest' → BothRead s indent pre' rest' :=
      fun indent pre' rest' hlt hcode' hbegin' => ih rest'.length hlt hcode' hbegin' rfl
    cases hm : nextMark 0 rest rest with
    | none =>
      refine .stop [] rest [] (List.append_nil rest).symm (hcode ▸ hwhole) ?_ ?_ fun elements => ?_
      · rintro ⟨r, rfl⟩
        exact List.cons_ne_nil _ _
      · rw [Source.readLevel_eq, hm]
      · rw [level_nextMark rest hcode, hm, List.append_nil, ← hcode]
    | some m =>
      obtain ⟨skipped, h⟩ := exists_atMark hcode hwhole hbegin hm
      cases hcomment : Text.startsWith "//" m.name with
      | true => exact h.bothRead_comment hcomment (ih' indent)
      | false =>
        by_cases htabs : m.tabs < indent
        · exact h.bothRead_above hcomment htabs
        · cases ht : s.readTag indent m with
          | error e =>
            exact h.bothRead_unmatched hcomment htabs (Source.scanModifiers_of_error ht)
          | ok t => exact h.bothRead_tag hcomment htabs ht ih'

/-- What the reader that goes by offsets makes of an outline, from the given offset on. -/
noncomputable def readFrom (source : Text) (o : Options) (indent start : Nat) :
    Attempt (List Element × Nat) :=
  level ⟨codeOf source, o⟩ indent start 0 [] []

/-- Reading from an offset on comes to an end, by rests and by offsets alike: with modifiers that do
not end, or with some elements and at an offset of the given kind. -/
def Ends (source : Text) (o : Options) (indent start : Nat) (stops : Nat → Prop) : Prop :=
  (∃ e, e.mistake = .unmatchedNest ∧ Outline.readFrom source o indent start = .error e ∧
    readFrom source o indent start = throw (.mistake e)) ∨
  ∃ elements stop, stops stop ∧ Outline.readFrom source o indent start = .ok ⟨elements, stop⟩ ∧
    readFrom source o indent start = pure (elements, stop)

private theorem readLevel_lineStartAt (hcode : s.code = pre ++ rest)
    (hbegin : CanBegin indent pre rest) :
    s.readLevel indent (lineStartAt s.code pre.length) rest = s.readLevel indent rest rest := by
  rcases hbegin with ⟨r, rfl⟩ | ⟨hwhole, -⟩
  · exact Source.readLevel_at_newline (.inr ⟨r, rfl⟩) indent _
  · have hnone : pre.reverse.takeWhile inLine = [] := by
      rcases hwhole with rfl | ⟨t, rfl⟩
      · rfl
      · simp
    rw [lineStartAt, hcode, List.take_left, hnone, List.length_nil, Nat.sub_zero, List.drop_left]

/-- Reading comes to an end from every place where a level can begin. -/
theorem ends_of_canBegin {source : Text} {o : Options} {stops : Nat → Prop}
    (hcode : codeOf source = pre ++ rest) (hbegin : CanBegin indent pre rest)
    (hstops : ∀ es between after, rest = between ++ after → Whole (pre ++ between) →
      ((∃ r, rest = '\n' :: r) → between ≠ []) →
      Outline.readFrom source o indent pre.length = .ok ⟨es, (pre ++ between).length⟩ →
      stops (pre ++ between).length) :
    Ends source o indent pre.length stops := by
  have hdrop : (codeOf source).drop pre.length = rest := by rw [hcode, List.drop_left]
  have hline := readLevel_lineStartAt (s := ⟨codeOf source, o⟩) hcode hbegin
  cases bothRead (s := ⟨codeOf source, o⟩) (whole_codeOf source) hcode hbegin with
  | refuse e unmatched byRests byOffsets =>
    refine .inl ⟨e, unmatched, ?_, byOffsets []⟩
    simp only [Outline.readFrom, hdrop, hline, byRests]
  | stop es between after rest_eq whole moves byRests byOffsets =>
    have hoffset : Source.offset ⟨codeOf source, o⟩ after = (pre ++ between).length := by
      apply offset_eq
      rw [hcode, rest_eq, List.append_assoc]
    have hfrom : Outline.readFrom source o indent pre.length =
        .ok ⟨es, (pre ++ between).length⟩ := by
      simp only [Outline.readFrom, hdrop, hline, byRests, hoffset]
    exact .inr ⟨es, _, hstops es between after rest_eq whole moves hfrom, hfrom, byOffsets []⟩

end Offsets

/-- Spaces make tabs by a number that is not zero. -/
theorem indentSize_pos (lines : List Text) : 0 < indentSize lines := by
  induction lines with
  | nil => decide
  | cons line lines ih =>
    rw [indentSize]
    split
    · next h =>
      cases line with
      | nil => simp [Text.startsWith] at h
      | cons c line =>
        obtain ⟨rfl, -⟩ : ' ' = c ∧ _ := by simpa [Text.startsWith] using h
        simp
    · exact ih

/-- Reading an outline always makes progress, and fails in one way only. For every source and all
options, spaces are counted by a number that is not zero, and the reader that goes by offsets comes
to an end: it stops at the end of the code or finds modifiers that do not end, and in no case asks
for a character beyond the end of the code or for a line feed that is not there. The same is true of
every level that begins at a line feed, and such a level stops at a greater offset, which is the
beginning of a line or the end of the code. -/
theorem reading_makes_progress (source : Text) (o : Options) :
    0 < indentSize (sourceLines source) ∧
      Offsets.Ends source o 0 0 (· = (codeOf source).length) ∧
      ∀ indent start, (codeOf source)[start]? = some '\n' →
        Offsets.Ends source o indent start fun stop => start < stop ∧
          (stop = (codeOf source).length ∨ (codeOf source)[stop - 1]? = some '\n') := by
  refine ⟨indentSize_pos _, ?_, ?_⟩
  · have hcode : codeOf source = [] ++ codeOf source := (List.nil_append _).symm
    refine Offsets.ends_of_canBegin hcode (.inr ⟨whole_nil, .inl rfl⟩) ?_
    intro es between after _ _ _ hread
    have hstop := readFrom_zero source o
    change readFrom source o 0 0 = _ at hread
    rw [hread] at hstop
    cases hscan : Source.scanLines ⟨codeOf source, o⟩ 0 (codeOf source) with
    | error e =>
      rw [hscan] at hstop
      cases hstop
    | ok tags =>
      rw [hscan] at hstop
      exact (Prod.mk.inj (Except.ok.inj hstop)).2
  · intro indent start hfeed
    obtain ⟨hlt, hchar⟩ := List.getElem?_eq_some_iff.mp hfeed
    have hcode : codeOf source =
        (codeOf source).take start ++ '\n' :: (codeOf source).drop (start + 1) := by
      rw [← hchar, ← List.drop_eq_getElem_cons hlt, List.take_append_drop]
    have hstart : ((codeOf source).take start).length = start := by
      rw [List.length_take]
      omega
    generalize (codeOf source).take start = pre at hcode hstart
    generalize (codeOf source).drop (start + 1) = r at hcode
    subst hstart
    refine Offsets.ends_of_canBegin hcode (.inl ⟨r, rfl⟩) ?_
    intro es between after hrest hwhole hmoves _
    have hne := hmoves ⟨r, rfl⟩
    constructor
    · rw [List.length_append]
      exact Nat.lt_add_of_pos_right (List.length_pos_iff.mpr hne)
    · right
      obtain ⟨t, ht⟩ : ∃ t, pre ++ between = t ++ ['\n'] := hwhole.resolve_left (by simp [hne])
      rw [hcode, hrest, ← List.append_assoc, ht]
      simp

/-- The level below the first item ends before the second one, where its line begins. -/
theorem reading_makes_progress_at_list :
    (codeOf "ul\n\tli\n\t\tb x\n\n\tli(a\nb)")[6]? = some '\n' ∧
      ∃ elements, elements.length = 1 ∧
        Offsets.readFrom "ul\n\tli\n\t\tb x\n\n\tli(a\nb)" { file := "i" } 2 6 =
          pure (elements, 14) := by
  have hfeed : (codeOf "ul\n\tli\n\t\tb x\n\n\tli(a\nb)")[6]? = some '\n' := by decide +kernel
  have hrests : (readFrom "ul\n\tli\n\t\tb x\n\n\tli(a\nb)" { file := "i" } 2 6).map
      (fun r => (r.elements.length, r.stop)) = .ok (1, 14) := by
    decide +kernel
  refine ⟨hfeed, ?_⟩
  rcases (reading_makes_progress _ { file := "i" }).2.2 2 6 hfeed with
    ⟨e, -, he, -⟩ | ⟨elements, stop, -, hread, hoffsets⟩
  · rw [he] at hrests
    cases hrests
  · rw [hread] at hrests
    obtain ⟨hlength, rfl⟩ := Prod.mk.inj (Except.ok.inj hrests)
    exact ⟨elements, hlength, hoffsets⟩

end OutlinePage.Outline
