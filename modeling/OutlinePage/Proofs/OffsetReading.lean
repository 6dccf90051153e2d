import Mathlib.Control.LawfulFix
import OutlinePage.Proofs.Passages

/-!
# Reading by offsets

A second reader, which goes through the code by offsets and in loops: it looks at one character
after the other, searches for line feeds, and jumps to where they are. Nothing keeps its offsets
within the code, its searches from failing or its loops from running for ever, so all of this shows
in its results. Offset by offset it does what the reader of rests does.
-/

namespace OutlinePage.Outline.Offsets

open OmegaCompletePartialOrder

/-- What can come up when a code is read by offsets. -/
inductive Trouble where
  | mistake (e : SourceError)
  /-- A character was asked for beyond the end of the code. -/
  | outOfRange
  /-- There is no line feed where one was searched for. -/
  | noLineFeed
deriving DecidableEq

/-- A run that ends with a result or with trouble, or does not end. -/
abbrev Attempt := ExceptT Trouble Part

noncomputable instance {α : Type} : OmegaCompletePartialOrder (Attempt α) :=
  inferInstanceAs (OmegaCompletePartialOrder (Part (Except Trouble α)))

section

variable {σ α β γ : Type}

/-- Does one round after the other, for as long as a round asks for a further one. -/
noncomputable def loop (round : (σ → Attempt α) → σ → Attempt α) : σ → Attempt α :=
  Part.fix (β := fun _ => Except Trouble α) round

private theorem loop_eq {round : (σ → Attempt α) → σ → Attempt α}
    (h : ∀ x, ωScottContinuous (round · x)) (x : σ) : loop round x = round (loop round) x :=
  congrFun (Part.fix_eq_of_ωScottContinuous (ωScottContinuous.of_apply₂ h)) x

private theorem continuous_bind {f : (σ → Attempt α) → Attempt β}
    {g : (σ → Attempt α) → β → Attempt γ} (hf : ωScottContinuous f)
    (hg : ∀ b, ωScottContinuous (g · b)) : ωScottContinuous fun again => f again >>= g again := by
  have hcases : ωScottContinuous fun again => ExceptT.bindCont (g again) := by
    refine ωScottContinuous.of_apply₂ fun result => ?_
    cases result with
    | ok b => exact hg b
    | error e => exact ωScottContinuous.const
  exact ContinuousHom.ωScottContinuous.bind hf hcases

/-- After a trouble nothing is done. -/
theorem throw_bind (t : Trouble) (f : α → Attempt β) :
    (throw t >>= f : Attempt β) = throw t :=
  Part.bind_some (Except.error t) (ExceptT.bindCont f)

end

def charAt (code : Text) (i : Nat) : Attempt Char :=
  match code[i]? with
  | some c => pure c
  | none => throw .outOfRange

/-- The offset of the first line feed from the given offset on. -/
def lineFeedFrom (code : Text) (i : Nat) : Attempt Nat :=
  match (code.drop i).findIdx? (· == '\n') with
  | some k => pure (i + k)
  | none => throw .noLineFeed

/-- The offset of the last line feed before the given offset. -/
def lineFeedBefore (code : Text) (i : Nat) : Attempt Nat :=
  match (code.take i).reverse.findIdx? (· == '\n') with
  | some k => pure (i - 1 - k)
  | none => throw .noLineFeed

/-- The code from one offset to another. -/
def slice (code : Text) (i j : Nat) : Text := (code.take j).drop i

/-- One step of the search for the end of the modifiers. -/
def scanRound (code : Text) (unmatched : SourceError)
    (again : Nat → Nat → Option Char → Attempt Nat) (j nest : Nat) (quote : Option Char) :
    Attempt Nat :=
  if j < code.length then do
    let c ← charAt code j
    if c = '\\' then again (j + 2) nest quote
    else
      match quote with
      | some q => again (j + 1) nest (if c = q then none else some q)
      | none =>
        if (c = ' ' || c = '\n') && nest = 0 then pure j
        else if Text.isQuote c && nest ≠ 0 then again (j + 1) nest (some c)
        else if isOpener c then again (j + 1) (nest + 1) none
        else if isCloser c then again (j + 1) (nest - 1) none
        else again (j + 1) nest none
  else throw (.mistake unmatched)

/-- The offset of the space or line feed that ends the modifiers, from the offset `j` on. -/
noncomputable def scanEnd (code : Text) (unmatched : SourceError) (j nest : Nat)
    (quote : Option Char) : Attempt Nat :=
  loop (fun again (x : Nat × Nat × Option Char) => scanRound code unmatched
    (fun j nest quote => again (j, nest, quote)) x.1 x.2.1 x.2.2) (j, nest, quote)

/-- One step of the search for the end of a block of text. -/
def blockRound (code : Text) (indent : Nat) (again : Nat → Attempt Nat) (pos : Nat) :
    Attempt Nat :=
  if pos + 1 < code.length then do
    let next ← lineFeedFrom code (pos + 1)
    let line := slice code (pos + 1) next
    let content := line.dropWhile (· == '\t')
    if !Text.isBlankText content && line.length - content.length ≤ indent then pure pos
    else again next
  else pure (code.length - 1)

/-- The offset of the line feed that ends a block of text, from the line feed at `pos` on. -/
noncomputable def blockEndFrom (code : Text) (indent pos : Nat) : Attempt Nat :=
  loop (blockRound code indent) pos

/-- The offset of the line feed that ends the text of a tag, whose first line ends at `lineFeed`. -/
noncomputable def textEnd (code : Text) (indent : Nat) (isBlock : Bool) (lineFeed : Nat) :
    Attempt Nat :=
  if isBlock then blockEndFrom code indent lineFeed else pure lineFeed

/-- The tag with the given name, which ends before the offset `i`, and the offset of the line feed
after its text. -/
noncomputable def tagAt (s : Source) (indent : Nat) (name : Text) (i : Nat) :
    Attempt (Tag × Nat) := do
  let (line, column) := lineColumn s.code i
  let unmatched : SourceError :=
    ⟨.unmatchedNest, s.options.file, Text.ofNat line ++ ":" ++ Text.ofNat column⟩
  let j ← scanEnd s.code unmatched i 0 none
  let parts := splitModifiers (Text.strip (slice s.code i j))
  let isBlock := parts.getLast? == some "."
  let lineFeed ← lineFeedFrom s.code j
  let next ← textEnd s.code indent isBlock lineFeed
  let text := slice s.code (j + 1) next
  let (line, column) := lineColumn s.code (i - name.length)
  pure ({
      name
      file := s.options.file
      attributes := readAttributes s.options parts
      classes := readClasses parts
      id := readId parts
      text := textOf (if isBlock then Text.strip text else text)
      isVoid := Vocabulary.voidTags.contains name
      isVerbatim := Vocabulary.verbatimTags.contains name
      isBlock
      line
      column }, next)

/-- One step through the code: a character, or a tag with the levels below it. -/
noncomputable def levelRound (s : Source)
    (again : Nat → Nat → Nat → Text → List Element → Attempt (List Element × Nat))
    (indent i tabs : Nat) (name : Text) (elements : List Element) :
    Attempt (List Element × Nat) :=
  if i < s.code.length then do
    let c ← charAt s.code i
    if isNameChar c then again indent (i + 1) tabs (name ++ [c]) elements
    else if name.isEmpty then
      again indent (i + 1) (if c = '\t' then tabs + 1 else if c = '\n' then 0 else tabs) []
        elements
    else if Text.startsWith "//" name then do
      let j ← lineFeedFrom s.code i
      again indent j 0 [] elements
    else if tabs < indent then do
      let j ← lineFeedBefore s.code (i - name.length)
      pure (elements, j + 1)
    else do
      let (tag, j) ← tagAt s indent name i
      if tag.isBlock || s.code.length ≤ j + 1 then
        again indent j 0 [] (elements ++ [⟨tag, []⟩])
      else do
        let (children, k) ← again (indent + 1) j 0 [] []
        again indent k 0 [] (elements ++ [⟨tag, children⟩])
  else pure (elements, s.code.length)

/-- Reads the elements at depth `indent` from the offset `i` on, with the tabs and the name seen in
the line so far and the elements read so far. Returns the offset at which it stopped, too. -/
noncomputable def level (s : Source) (indent i tabs : Nat) (name : Text)
    (elements : List Element) : Attempt (List Element × Nat) :=
  loop (fun again (x : Nat × Nat × Nat × Text × List Element) => levelRound s
    (fun indent i tabs name elements => again (indent, i, tabs, name, elements))
    x.1 x.2.1 x.2.2.1 x.2.2.2.1 x.2.2.2.2) (indent, i, tabs, name, elements)

/-! ### The loops, step by step -/

private theorem scanEnd_round (code : Text) (unmatched : SourceError) (j nest : Nat)
    (quote : Option Char) :
    scanEnd code unmatched j nest quote =
      scanRound code unmatched (scanEnd code unmatched) j nest quote := by
  refine loop_eq (fun x => ?_) _
  unfold scanRound
  split
  · refine continuous_bind ωScottContinuous.const fun c => ?_
    split
    · exact ωScottContinuous.apply _
    · split
      · exact ωScottContinuous.apply _
      · split
        · exact ωScottContinuous.const
        · repeat' split
          all_goals exact ωScottContinuous.apply _
  · exact ωScottContinuous.const

private theorem blockEndFrom_round (code : Text) (indent pos : Nat) :
    blockEndFrom code indent pos = blockRound code indent (blockEndFrom code indent) pos := by
  refine loop_eq (fun x => ?_) _
  unfold blockRound
  split
  · refine continuous_bind ωScottContinuous.const fun next => ?_
    dsimp only
    split
    · exact ωScottContinuous.const
    · exact ωScottContinuous.apply _
  · exact ωScottContinuous.const

/-- Reading a level is one round of it after the other. -/
theorem level_round (s : Source) (indent i tabs : Nat) (name : Text) (elements : List Element) :
    level s indent i tabs name elements = levelRound s (level s) indent i tabs name elements := by
  refine loop_eq (fun x => ?_) _
  unfold levelRound
  split
  · refine continuous_bind ωScottContinuous.const fun c => ?_
    split
    · exact ωScottContinuous.apply _
    split
    · exact ωScottContinuous.apply _
    split
    · exact continuous_bind ωScottContinuous.const fun j => ωScottContinuous.apply _
    split
    · exact ωScottContinuous.const
    · refine continuous_bind ωScottContinuous.const fun tagged => ?_
      dsimp only
      split
      · exact ωScottContinuous.apply _
      -- the level below, and then the rest of this one
      · exact continuous_bind (ωScottContinuous.apply _) fun below => ωScottContinuous.apply _
  · exact ωScottContinuous.const

/-! ### Characters, line feeds and slices -/

/-- The offset of a rest is the length of what comes before it. -/
theorem offset_eq {s : Source} {pre rest : Text} (h : s.code = pre ++ rest) :
    s.offset rest = pre.length := by
  rw [Source.offset, h, List.length_append, Nat.add_sub_cancel]

/-- The character at the end of a beginning is the first one after it. -/
theorem charAt_append (pre : Text) (c : Char) (r : Text) :
    charAt (pre ++ c :: r) pre.length = pure c := by
  simp [charAt]

private theorem findIdx?_newline {line : Text} (h : ∀ c ∈ line, inLine c = true) (r : Text) :
    (line ++ '\n' :: r).findIdx? (· == '\n') = some line.length := by
  induction line with
  | nil => rfl
  | cons c line ih =>
    have hc : (c == '\n') = false := by
      simpa [inLine] using h c List.mem_cons_self
    rw [List.cons_append, List.findIdx?_cons, hc,
      ih fun x hx => h x (List.mem_cons_of_mem c hx)]
    rfl

/-- From within a line, the next line feed is the one that ends it. -/
theorem lineFeedFrom_append {line : Text} (h : ∀ c ∈ line, inLine c = true) (pre r : Text) :
    lineFeedFrom (pre ++ (line ++ '\n' :: r)) pre.length = pure (pre ++ line).length := by
  rw [lineFeedFrom, List.drop_left, findIdx?_newline h, List.length_append]

/-- From within a line, the line feed before is the one that ends the line above. -/
theorem lineFeedBefore_append {junk : Text} (h : ∀ c ∈ junk, inLine c = true) (t rest : Text) :
    lineFeedBefore (t ++ '\n' :: (junk ++ rest)) (t ++ '\n' :: junk).length = pure t.length := by
  have htake : (t ++ '\n' :: (junk ++ rest)).take (t ++ '\n' :: junk).length =
      t ++ '\n' :: junk := by
    rw [← List.cons_append, ← List.append_assoc, List.take_left]
  have hreverse : (t ++ '\n' :: junk).reverse = junk.reverse ++ '\n' :: t.reverse := by simp
  have hjunk : ∀ c ∈ junk.reverse, inLine c = true := fun c hc => h c (List.mem_reverse.mp hc)
  rw [lineFeedBefore, htake, hreverse, findIdx?_newline hjunk]
  dsimp only
  congr 1
  simp only [List.length_append, List.length_cons, List.length_reverse]
  omega

private theorem slice_append (pre middle rest : Text) :
    slice (pre ++ (middle ++ rest)) pre.length (pre ++ middle).length = middle := by
  rw [slice, ← List.append_assoc, List.take_left, List.drop_left]

private theorem slice_append_succ (pre middle rest : Text) :
    slice (pre ++ (middle ++ rest)) (pre.length + 1) (pre ++ middle).length = middle.drop 1 := by
  rw [slice, ← List.append_assoc, List.take_left, ← List.drop_drop, List.drop_left]

/-! ### Modifiers and blocks -/

/-- The offset at which scanned modifiers end. -/
def endOf (unmatched : SourceError) (pre : Text) : Option (Text × Text) → Attempt Nat
  | none => throw (.mistake unmatched)
  | some (modifiers, _) => pure (pre ++ modifiers).length

private theorem endOf_scannedBefore (unmatched : SourceError) (pre piece : Text)
    (scanned : Option (Text × Text)) :
    endOf unmatched pre (scanned.map (scannedBefore piece)) =
      endOf unmatched (pre ++ piece) scanned := by
  cases scanned with
  | none => rfl
  | some p => simp [endOf, scannedBefore]

private theorem scanEnd_cons {c : Char} (hc : c ≠ '\\') (unmatched : SourceError) (pre r : Text)
    (nest : Nat) (quote : Option Char) :
    scanEnd (pre ++ c :: r) unmatched pre.length nest quote =
      match quote with
      | some q =>
        scanEnd (pre ++ c :: r) unmatched (pre.length + 1) nest (if c = q then none else some q)
      | none =>
        if (c = ' ' || c = '\n') && nest = 0 then pure pre.length
        else if Text.isQuote c && nest ≠ 0 then
          scanEnd (pre ++ c :: r) unmatched (pre.length + 1) nest (some c)
        else if isOpener c then scanEnd (pre ++ c :: r) unmatched (pre.length + 1) (nest + 1) none
        else if isCloser c then scanEnd (pre ++ c :: r) unmatched (pre.length + 1) (nest - 1) none
        else scanEnd (pre ++ c :: r) unmatched (pre.length + 1) nest none := by
  rw [scanEnd_round, scanRound, charAt_append, pure_bind, if_pos (by simp), if_neg hc]

/-- Modifiers end by offsets where they end in the rest of the code. -/
theorem scanEnd_eq (unmatched : SourceError) (pre rest : Text) (nest : Nat) (quote : Option Char) :
    scanEnd (pre ++ rest) unmatched pre.length nest quote =
      endOf unmatched pre (scanFrom nest quote rest) := by
  have hmove (pre : Text) (c : Char) (r : Text) (nest : Nat) (quote : Option Char) :
      scanEnd (pre ++ c :: r) unmatched (pre.length + 1) nest quote =
        scanEnd ((pre ++ [c]) ++ r) unmatched (pre ++ [c]).length nest quote := by
    simp
  fun_induction scanFrom nest quote rest generalizing pre with
  | case1 =>
    rw [scanEnd_round, scanRound, if_neg (by simp)]
    rfl
  | case2 =>
    rw [scanEnd_round, scanRound, charAt_append, pure_bind, if_pos (by simp), if_pos rfl,
      scanEnd_round, scanRound, if_neg (by simp)]
    rfl
  | case3 nest quote c r ih =>
    rw [scanEnd_round, scanRound, charAt_append, pure_bind, if_pos (by simp), if_pos rfl,
      endOf_scannedBefore, ← ih]
    simp
  | case4 nest c r h1 h2 q ih =>
    rw [scanEnd_cons (ne_backslash h1 h2), endOf_scannedBefore, ← ih]
    exact hmove ..
  | case5 nest c r h1 h2 hend =>
    rw [scanEnd_cons (ne_backslash h1 h2)]
    simp [hend, endOf]
  | case6 nest c r h1 h2 hend hq ih =>
    rw [scanEnd_cons (ne_backslash h1 h2), endOf_scannedBefore, ← ih]
    dsimp only
    rw [if_neg hend, if_pos hq, hmove]
  | case7 nest c r h1 h2 hend hq ho ih =>
    rw [scanEnd_cons (ne_backslash h1 h2), endOf_scannedBefore, ← ih]
    dsimp only
    rw [if_neg hend, if_neg hq, if_pos ho, hmove]
  | case8 nest c r h1 h2 hend hq ho hc ih =>
    rw [scanEnd_cons (ne_backslash h1 h2), endOf_scannedBefore, ← ih]
    dsimp only
    rw [if_neg hend, if_neg hq, if_neg ho, if_pos hc, hmove]
  | case9 nest c r h1 h2 hend hq ho hc ih =>
    rw [scanEnd_cons (ne_backslash h1 h2), endOf_scannedBefore, ← ih]
    dsimp only
    rw [if_neg hend, if_neg hq, if_neg ho, if_neg hc, hmove]

private theorem blockEndFrom_last (depth : Nat) (pre : Text) :
    blockEndFrom (pre ++ ['\n']) depth pre.length = pure pre.length := by
  rw [blockEndFrom_round, blockRound, if_neg (by simp)]
  simp

private theorem blockEndFrom_line {line : Text} (h : ∀ c ∈ line, inLine c = true) (depth : Nat)
    (pre r : Text) :
    blockEndFrom (pre ++ '\n' :: (line ++ '\n' :: r)) depth pre.length =
      if endsBlock depth line then pure pre.length
      else
        blockEndFrom (pre ++ '\n' :: (line ++ '\n' :: r)) depth (pre ++ '\n' :: line).length := by
  have hcode : pre ++ '\n' :: (line ++ '\n' :: r) = (pre ++ ['\n']) ++ (line ++ '\n' :: r) := by
    simp
  have hpos : pre.length + 1 = (pre ++ ['\n']).length := by simp
  have hnext : (pre ++ ['\n'] ++ line).length = (pre ++ '\n' :: line).length := by simp
  have hline : line.takeWhile inLine = line := List.takeWhile_eq_self_iff.mpr h
  have hmore : (pre ++ ['\n']).length < (pre ++ ['\n'] ++ (line ++ '\n' :: r)).length := by
    simp only [List.length_append, List.length_cons]
    omega
  rw [blockEndFrom_round, blockRound, hcode, hpos, if_pos hmore, lineFeedFrom_append h, pure_bind,
    slice_append, hnext]
  simp only [endsBlock, hline]

/-- A block of text ends before the line that stops it, line by line. -/
theorem blockEndFrom_eq {depth : Nat} {body after : Text} (hafter : Whole after)
    (hstop : StopsBlock depth after)
    (hlines : ∀ line ∈ (Text.split '\n' body).tail, endsBlock depth line = false) (pre : Text) :
    blockEndFrom (pre ++ (body ++ '\n' :: after)) depth (pre ++ body.takeWhile inLine).length =
      pure (pre ++ body).length := by
  induction hlen : body.length using Nat.strong_induction_on generalizing body pre with
  | _ n ih =>
    subst hlen
    rcases dropWhile_inLine_cases body with hlast | ⟨body', hmore⟩
    · have hbody : body.takeWhile inLine = body := by
        have happ := List.takeWhile_append_dropWhile (p := inLine) (l := body)
        rwa [hlast, List.append_nil] at happ
      rw [hbody, ← List.append_assoc]
      rcases List.eq_nil_or_concat after with rfl | ⟨init, last, hinit⟩
      · exact blockEndFrom_last depth (pre ++ body)
      · have hne : after ≠ [] := by simp [hinit]
        obtain ⟨r, hr⟩ := dropWhile_inLine_of_whole hafter hne
        have hfirst : after = after.takeWhile inLine ++ '\n' :: r := by
          rw [← hr, List.takeWhile_append_dropWhile]
        have hend : endsBlock depth (after.takeWhile inLine) = true := by
          rw [endsBlock_takeWhile]
          exact hstop.resolve_left hne
        rw [hfirst, blockEndFrom_line fun c hc => List.mem_takeWhile_imp hc, if_pos hend]
    · have hbody : body = body.takeWhile inLine ++ '\n' :: body' := by
        rw [← hmore, List.takeWhile_append_dropWhile]
      have hinside : ∀ c ∈ body.takeWhile inLine, inLine c = true := fun c hc =>
        List.mem_takeWhile_imp hc
      generalize body.takeWhile inLine = first at hbody hinside ⊢
      subst hbody
      have hone : '\n' ∉ first := fun hc => inLine_eq_true.mp (hinside _ hc) rfl
      rw [Text.split_append, Text.split_of_not_mem hone, List.singleton_append, List.tail_cons,
        split_newline, List.forall_mem_cons] at hlines
      obtain ⟨hend, hlines⟩ := hlines
      obtain ⟨r, hr⟩ := exists_first_line body' after
      have hnext := ih body'.length (by simp; omega) hlines (pre ++ first ++ ['\n']) rfl
      have hcode : pre ++ (first ++ '\n' :: body' ++ '\n' :: after) =
          (pre ++ first) ++ '\n' :: (body' ++ '\n' :: after) := by simp
      have hcode' : (pre ++ first ++ ['\n']) ++ (body' ++ '\n' :: after) =
          (pre ++ first) ++ '\n' :: (body' ++ '\n' :: after) := by simp
      have hpos : (pre ++ first ++ ['\n'] ++ body'.takeWhile inLine).length =
          (pre ++ first ++ '\n' :: body'.takeWhile inLine).length := by simp
      rw [hcode', hpos, hr] at hnext
      rw [hcode, hr, blockEndFrom_line fun c hc => List.mem_takeWhile_imp hc, hend, hnext]
      simp

/-! ### Tags -/

section

variable {s : Source} {depth : Nat} {before junk name modifiers body after : Text}

/-- The tag at some pieces of the code, and the line feed after them. -/
theorem tagAt_of_spelled (h : Spelled depth junk name modifiers body after)
    (hcode : s.code = before ++ (junk ++ (name ++ (modifiers ++ (body ++ '\n' :: after)))))
    (hbefore : Whole before) (hafter : Whole after) :
    tagAt s depth name (before ++ (junk ++ name)).length =
      pure (tagOf s.options name modifiers body (before.count '\n' + 1) (junk.length + 1),
        (before ++ (junk ++ (name ++ (modifiers ++ body)))).length) := by
  have hassoc : s.code = (before ++ (junk ++ name)) ++ (modifiers ++ (body ++ '\n' :: after)) := by
    rw [hcode]
    simp
  have hassoc' : s.code = ((before ++ (junk ++ name)) ++ modifiers) ++ (body ++ '\n' :: after) := by
    rw [hcode]
    simp
  obtain ⟨r, hr⟩ := exists_first_line body after
  have hscan (e : SourceError) : scanEnd s.code e (before ++ (junk ++ name)).length 0 none =
      pure ((before ++ (junk ++ name)) ++ modifiers).length := by
    rw [hassoc, scanEnd_eq]
    have := h.scan
    rw [scanModifiers] at this
    rw [this, endOf]
  have hmodifiers : slice s.code (before ++ (junk ++ name)).length
      ((before ++ (junk ++ name)) ++ modifiers).length = modifiers := by
    rw [hassoc, slice_append]
  have hfeed : lineFeedFrom s.code ((before ++ (junk ++ name)) ++ modifiers).length =
      pure (((before ++ (junk ++ name)) ++ modifiers) ++ body.takeWhile inLine).length := by
    rw [hassoc', hr]
    exact lineFeedFrom_append (fun c hc => List.mem_takeWhile_imp hc) _ r
  have hnext : textEnd s.code depth (announcesBlock modifiers)
        (((before ++ (junk ++ name)) ++ modifiers) ++ body.takeWhile inLine).length =
      pure (((before ++ (junk ++ name)) ++ modifiers) ++ body).length := by
    by_cases hb : announcesBlock modifiers = true
    · obtain ⟨hstop, hlines⟩ := h.block hb
      rw [textEnd, if_pos hb, hassoc', blockEndFrom_eq hafter hstop hlines]
    · rw [textEnd, if_neg hb, List.takeWhile_eq_self_iff.mpr (h.text (Bool.eq_false_iff.mpr hb))]
  have hplace : lineColumn s.code ((before ++ (junk ++ name)).length - name.length) =
      (before.count '\n' + 1, junk.length + 1) := by
    have hstart : (before ++ (junk ++ name)).length - name.length =
        before.length + junk.length := by
      simp only [List.length_append]
      omega
    rw [hcode, hstart]
    exact lineColumn_eq hbefore (fun c hc => inLine_of_isFiller (h.filler c hc)) _
  have htext : slice s.code (((before ++ (junk ++ name)) ++ modifiers).length + 1)
      (((before ++ (junk ++ name)) ++ modifiers) ++ body).length = body.drop 1 := by
    rw [hassoc', slice_append_succ]
  have hlength : (before ++ (junk ++ (name ++ (modifiers ++ body)))).length =
      (((before ++ (junk ++ name)) ++ modifiers) ++ body).length := by
    simp
  rw [announcesBlock] at hnext
  simp only [tagAt, hscan, pure_bind, hmodifiers, hfeed, hnext, hplace, htext, hlength]
  rfl

/-- Modifiers that do not end are a mistake, found at their beginning. -/
theorem tagAt_of_unmatched {rest : Text} (hcode : s.code = before ++ rest)
    (h : scanModifiers rest = none) :
    tagAt s depth name before.length = throw (.mistake (s.mistakeAt rest .unmatchedNest)) := by
  have hoffset := offset_eq hcode
  have hscan (e : SourceError) : scanEnd s.code e before.length 0 none = throw (.mistake e) := by
    rw [scanModifiers] at h
    rw [hcode, scanEnd_eq, h, endOf]
  simp only [tagAt, hscan, Source.mistakeAt, hoffset]
  exact throw_bind _ _

end

end OutlinePage.Outline.Offsets
