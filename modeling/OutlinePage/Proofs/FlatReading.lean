import OutlinePage.Proofs.Lines

/-!
# Reading line by line

A second reader of outlines, which goes through the lines once and keeps no levels. The depth of a
tag follows from its tabs and from the tag before it: it is at most one deeper than that tag, and no
deeper than it if that tag has a block of text. The elements in the order of their lines, each with
its depth, are what this reader gives; the tree is determined by them.
-/

namespace OutlinePage.Outline

/-- Proves something about all lists of elements, level by level. -/
theorem forest_induction {P : List Element → Prop} (nil : P [])
    (cons : ∀ tag children rest, P children → P rest → P (⟨tag, children⟩ :: rest))
    (es : List Element) : P es :=
  @Element.rec_1 (fun e => ∀ rest, P rest → P (e :: rest)) P
    (fun tag children hc rest hr => cons tag children rest hc hr) nil
    (fun _ es he hr => he es hr) es

mutual

/-- The tags of an element and of those below it, with their depths. -/
def flattenElement (depth : Nat) : Element → List (Nat × Tag)
  | ⟨tag, children⟩ => (depth, tag) :: flatten (depth + 1) children

/-- The tags of all elements, each before those below it, with their depths. -/
def flatten (depth : Nat) : List Element → List (Nat × Tag)
  | [] => []
  | e :: es => flattenElement depth e ++ flatten depth es

end

/-- No elements have no tags. -/
@[simp] theorem flatten_nil (depth : Nat) : flatten depth [] = [] := rfl

/-- An element comes first, then its children one level deeper, then the elements after it. -/
@[simp] theorem flatten_cons (depth : Nat) (tag : Tag) (children rest : List Element) :
    flatten depth (⟨tag, children⟩ :: rest) =
      (depth, tag) :: (flatten (depth + 1) children ++ flatten depth rest) := rfl

/-- Two lists of elements are flattened one after the other. -/
theorem flatten_append (depth : Nat) (es es' : List Element) :
    flatten depth (es ++ es') = flatten depth es ++ flatten depth es' := by
  induction es with
  | nil => rfl
  | cons e es ih =>
    rw [List.cons_append, flatten, flatten, ih, List.append_assoc]

private theorem le_of_mem_flatten {depth : Nat} {es : List Element} {e : Nat × Tag}
    (h : e ∈ flatten depth es) : depth ≤ e.1 := by
  induction es using forest_induction generalizing depth with
  | nil => simp at h
  | cons tag children rest ihc ihr =>
    rw [flatten_cons, List.mem_cons, List.mem_append] at h
    rcases h with rfl | h | h
    · exact Nat.le_refl _
    · exact Nat.le_of_succ_le (ihc h)
    · exact ihr h

/-- What is deeper than a level ends where the level goes on. -/
theorem flatten_head_not_deeper (depth : Nat) (es : List Element) :
    (flatten depth es).takeWhile (fun e => decide (depth < e.1)) = [] ∧
      (flatten depth es).dropWhile (fun e => decide (depth < e.1)) = flatten depth es := by
  cases es with
  | nil => exact ⟨rfl, rfl⟩
  | cons e es => cases e; simp

/-- Elements are determined by their tags and depths. -/
theorem flatten_injective (depth : Nat) : Function.Injective (flatten depth) := by
  intro es
  induction es using forest_induction generalizing depth with
  | nil =>
    intro es' h
    cases es' with
    | nil => rfl
    | cons e es' => cases e; simp at h
  | cons tag children rest ihc ihr =>
    intro es' h
    cases es' with
    | nil => simp at h
    | cons e rest' =>
      obtain ⟨tag', children'⟩ := e
      rw [flatten_cons, flatten_cons, List.cons.injEq] at h
      have ht : tag = tag' := congrArg Prod.snd h.1
      have hd (cs : List Element) :
          ∀ e ∈ flatten (depth + 1) cs, decide (depth < e.1) = true := by
        intro e he
        exact decide_eq_true (le_of_mem_flatten he)
      have hc := congrArg (List.takeWhile fun e => decide (depth < e.1)) h.2
      have hr := congrArg (List.dropWhile fun e => decide (depth < e.1)) h.2
      rw [List.takeWhile_append_of_pos (hd children), List.takeWhile_append_of_pos (hd children'),
        (flatten_head_not_deeper depth rest).1, (flatten_head_not_deeper depth rest').1,
        List.append_nil, List.append_nil] at hc
      rw [List.dropWhile_append_of_pos (hd children), List.dropWhile_append_of_pos (hd children'),
        (flatten_head_not_deeper depth rest).2, (flatten_head_not_deeper depth rest').2] at hr
      rw [ht, ihc (depth + 1) hc, ihr depth hr]

/-- Neither a line feed nor a character of a name. -/
def isFiller (c : Char) : Bool := inLine c && !isNameChar c

/-- The first word of the line at the beginning of a rest, as a mark. The name is empty if the line
has no word. -/
def lineMark (rest : Text) : Mark :=
  let word := rest.dropWhile isFiller
  { tabs := (rest.takeWhile isFiller).count '\t'
    lineStart := rest
    name := word.takeWhile isNameChar
    rest := word.dropWhile isNameChar }

/-- Is a line's first word the name of a tag? It is unless there is none, or it begins a comment. -/
def isTagName (name : Text) : Bool := !name.isEmpty && !Text.startsWith "//" name

/-- How deep a tag can be at most after the given one. -/
def roomAfter (depth : Nat) (tag : Tag) : Nat := if tag.isBlock then depth else depth + 1

/-- What leads up to the name, the name and the rest are the text again. -/
theorem lineMark_append (rest : Text) :
    rest.takeWhile isFiller ++ ((lineMark rest).name ++ (lineMark rest).rest) = rest := by
  rw [lineMark, List.takeWhile_append_dropWhile, List.takeWhile_append_dropWhile]

/-- After a tag's name the text is shorter. -/
theorem lineMark_rest_lt {rest : Text} (h : isTagName (lineMark rest).name = true) :
    (lineMark rest).rest.length < rest.length := by
  have hl := congrArg List.length (lineMark_append rest)
  have hn : 0 < (lineMark rest).name.length := by
    rw [List.length_pos_iff]
    intro hn
    simp [isTagName, hn] at h
  rw [List.length_append, List.length_append] at hl
  omega

/-- The text after a line is shorter. -/
theorem length_nextLine_lt (c : Char) (r : Text) :
    (nextLine (c :: r)).length < (c :: r).length := by
  have hd : ((c :: r).dropWhile inLine).length ≤ (c :: r).length :=
    (List.dropWhile_sublist _).length_le
  rw [nextLine, List.length_drop]
  simp only [List.length_cons] at hd ⊢
  omega

/-- Reads the tags from the beginning of a line on, with their depths; the first one has at most the
depth `room`. A line whose first word is no tag's name is passed over, and the lines that a tag
takes up with its modifiers and its block are passed over with it. -/
def Source.scanLines (s : Source) (room : Nat) (rest : Text) :
    Except SourceError (List (Nat × Tag)) :=
  match rest with
  | [] => .ok []
  | c :: r =>
    let m := lineMark (c :: r)
    if hm : isTagName m.name = true then
      let depth := min m.tabs room
      match ht : s.readTag depth m with
      | .error e => .error e
      | .ok t =>
        have : (t.next.drop 1).length < (c :: r).length :=
          Nat.lt_of_le_of_lt
            (Nat.le_trans (List.drop_sublist 1 t.next).length_le (Source.readTag_next_le ht))
            (lineMark_rest_lt hm)
        (s.scanLines (roomAfter depth t.tag) (t.next.drop 1)).map ((depth, t.tag) :: ·)
    else
      have := length_nextLine_lt c r
      s.scanLines room (nextLine (c :: r))
termination_by rest.length
decreasing_by all_goals exact this

namespace Source

variable (s : Source) (room : Nat)

/-- At the end of the code there are no more tags. -/
@[simp] theorem scanLines_nil : s.scanLines room [] = .ok [] := by
  rw [scanLines]

/-- A line whose first word names no tag is passed over. -/
theorem scanLines_pass {rest : Text} (h : isTagName (lineMark rest).name = false) :
    s.scanLines room rest = s.scanLines room (nextLine rest) := by
  cases rest with
  | nil => rfl
  | cons c r =>
    rw [scanLines]
    simp [h]

/-- A line whose first word names a tag gives it, with all lines that it takes up. -/
theorem scanLines_tag {rest : Text} {t : TagLine} (h : isTagName (lineMark rest).name = true)
    (ht : s.readTag (min (lineMark rest).tabs room) (lineMark rest) = .ok t) :
    s.scanLines room rest =
      (s.scanLines (roomAfter (min (lineMark rest).tabs room) t.tag) (t.next.drop 1)).map
        ((min (lineMark rest).tabs room, t.tag) :: ·) := by
  cases rest with
  | nil => simp [lineMark, isTagName] at h
  | cons c r =>
    rw [scanLines]
    simp only [h, dite_true]
    split
    · next e he =>
      rw [ht] at he
      cases he
    · next t' ht' =>
      rw [ht] at ht'
      cases ht'
      rfl

/-- A mistake in a tag is a mistake of the scan. -/
theorem scanLines_error {rest : Text} {e : SourceError}
    (h : isTagName (lineMark rest).name = true)
    (ht : s.readTag (min (lineMark rest).tabs room) (lineMark rest) = .error e) :
    s.scanLines room rest = .error e := by
  cases rest with
  | nil => simp [lineMark, isTagName] at h
  | cons c r =>
    rw [scanLines]
    simp only [h, dite_true]
    split
    · next e' he' =>
      rw [ht] at he'
      cases he'
      rfl
    · next t ht' =>
      rw [ht] at ht'
      cases ht'

end Source

/-! ### Marks and lines -/

private theorem nextMark_filler {junk : Text} (h : ∀ c ∈ junk, isFiller c = true) (tabs : Nat)
    (lineStart r : Text) :
    nextMark tabs lineStart (junk ++ r) = nextMark (tabs + junk.count '\t') lineStart r := by
  induction junk generalizing tabs with
  | nil => rfl
  | cons c junk ih =>
    have hc := h c (by simp)
    have hj := ih (fun x hx => h x (by simp [hx]))
    simp only [isFiller, inLine, Bool.and_eq_true, bne_iff_ne, Bool.not_eq_true'] at hc
    rw [List.cons_append, nextMark]
    by_cases ht : c = '\t'
    · subst c
      rw [List.count_cons_self]
      simp only [hc.2, Bool.false_eq_true, if_false, if_true, hj]
      congr 1
      omega
    · rw [List.count_cons_of_ne ht]
      simp only [hc.1, hc.2, ht, Bool.false_eq_true, if_false, hj]

private theorem isFiller_eq_false {c : Char} (h : isFiller c = false) :
    c = '\n' ∨ isNameChar c = true := by
  simpa [isFiller, inLine, imp_iff_not_or] using h

/-- The search for a name takes the first word of the line, or goes on in the next line. -/
theorem nextMark_line (rest : Text) :
    nextMark 0 rest rest =
      if (lineMark rest).name = [] then nextMark 0 (nextLine rest) (nextLine rest)
      else some (lineMark rest) := by
  have hf : ∀ c ∈ rest.takeWhile isFiller, isFiller c = true := fun _ hc =>
    List.mem_takeWhile_imp hc
  have hl : ∀ c ∈ rest.takeWhile isFiller, inLine c = true := fun c hc => by
    have := hf c hc
    simp only [isFiller, Bool.and_eq_true] at this
    exact this.1
  have hs : nextMark 0 rest rest =
      nextMark (lineMark rest).tabs rest (rest.dropWhile isFiller) := by
    have := nextMark_filler hf 0 rest (rest.dropWhile isFiller)
    rwa [List.takeWhile_append_dropWhile, Nat.zero_add] at this
  have hd : rest.dropWhile inLine = (rest.dropWhile isFiller).dropWhile inLine := by
    calc rest.dropWhile inLine
      _ = (rest.takeWhile isFiller ++ rest.dropWhile isFiller).dropWhile inLine := by
        rw [List.takeWhile_append_dropWhile]
      _ = (rest.dropWhile isFiller).dropWhile inLine := List.dropWhile_append_of_pos hl
  rw [hs, nextLine, hd]
  cases hw : rest.dropWhile isFiller with
  | nil => simp [lineMark, hw, nextMark]
  | cons c r =>
    have hc : isFiller c = false := by
      have := List.head_dropWhile_not isFiller (l := rest) (by simp [hw])
      simpa [hw] using this
    rcases isFiller_eq_false hc with rfl | hn
    · have hi : isNameChar '\n' = false := by decide
      simp [lineMark, hw, nextMark, hi]
    · simp [lineMark, hw, nextMark, hn]

/-- A mark that was found is the first word of its line, and the line is a rest of the code. -/
theorem nextMark_eq_some {rest : Text} {m : Mark} (h : nextMark 0 rest rest = some m) :
    m = lineMark m.lineStart ∧ m.name ≠ [] ∧ m.lineStart.length ≤ rest.length := by
  induction hn : rest.length using Nat.strong_induction_on generalizing rest with
  | _ n ih =>
    rw [nextMark_line] at h
    split at h
    · next he =>
      cases rest with
      | nil => simp [nextLine, nextMark] at h
      | cons c r =>
        have hlt := length_nextLine_lt c r
        obtain ⟨hm, hne, hle⟩ := ih _ (hn ▸ hlt) h rfl
        exact ⟨hm, hne, by omega⟩
    · next he =>
      simp only [Option.some.injEq] at h
      subst h
      exact ⟨rfl, he, by rw [lineMark, hn]⟩

/-- Reading again from the beginning of its line finds the same mark. -/
theorem nextMark_lineStart {rest : Text} {m : Mark} (h : nextMark 0 rest rest = some m) :
    nextMark 0 m.lineStart m.lineStart = some m := by
  obtain ⟨hm, hne, -⟩ := nextMark_eq_some h
  rw [nextMark_line, ← hm, if_neg hne]

/-- A character of names is no line feed. -/
theorem inLine_of_isNameChar {c : Char} (h : isNameChar c = true) : inLine c = true := by
  rw [inLine_eq_true]
  rintro rfl
  revert h
  decide

/-- Nor is one that may stand before a name. -/
theorem inLine_of_isFiller {c : Char} (h : isFiller c = true) : inLine c = true := by
  simp only [isFiller, Bool.and_eq_true] at h
  exact h.1

/-- The line of a mark goes on after its name. -/
theorem dropWhile_lineMark (rest : Text) :
    rest.dropWhile inLine = (lineMark rest).rest.dropWhile inLine := by
  have hf : ∀ c ∈ rest.takeWhile isFiller, inLine c = true := fun _ hc =>
    inLine_of_isFiller (List.mem_takeWhile_imp hc)
  have hn : ∀ c ∈ (lineMark rest).name, inLine c = true := fun _ hc =>
    inLine_of_isNameChar (List.mem_takeWhile_imp hc)
  have ha := congrArg (List.dropWhile inLine) (lineMark_append rest)
  rw [List.dropWhile_append_of_pos hf, List.dropWhile_append_of_pos hn] at ha
  exact ha.symm

/-- A block ends at the end of the code or at a line feed. -/
theorem blockEnd_cases (indent : Nat) (rest : Text) :
    blockEnd indent rest = [] ∨ ∃ r, blockEnd indent rest = '\n' :: r := by
  fun_induction blockEnd indent rest with
  | case1 => exact Or.inl rfl
  | case2 c r h =>
    simp only [Bool.and_eq_true, decide_eq_true_eq] at h
    exact Or.inr ⟨r, by rw [h.1]⟩
  | case3 _ _ _ ih => exact ih

namespace Source

/-- What comes after a tag begins with a line feed. -/
theorem readTag_next_cases {s : Source} {indent : Nat} {m : Mark} {t : TagLine}
    (h : s.readTag indent m = .ok t) : t.next = [] ∨ ∃ r, t.next = '\n' :: r := by
  unfold readTag at h
  split at h
  · cases h
  · next modifiers rest hs =>
    simp only [Except.ok.injEq] at h
    subst h
    dsimp only
    split
    · exact blockEnd_cases indent rest
    · exact dropWhile_inLine_cases rest

variable (s : Source) (room : Nat)

private theorem scanLines_newline (r : Text) :
    s.scanLines room ('\n' :: r) = s.scanLines room r := by
  have h : isTagName (lineMark ('\n' :: r)).name = false := by
    have hf : isFiller '\n' = false := by decide
    have hn : isNameChar '\n' = false := by decide
    simp [lineMark, hf, hn, isTagName]
  rw [scanLines_pass s room h]
  rfl

private theorem scanLines_drop_one {t : Text} (h : t = [] ∨ ∃ r, t = '\n' :: r) :
    s.scanLines room (t.drop 1) = s.scanLines room t := by
  rcases h with rfl | ⟨r, rfl⟩
  · rfl
  · exact (scanLines_newline s room r).symm

/-- Without a further name there is no further tag. -/
theorem scanLines_of_none {rest : Text} (h : nextMark 0 rest rest = none) :
    s.scanLines room rest = .ok [] := by
  induction hn : rest.length using Nat.strong_induction_on generalizing rest with
  | _ n ih =>
    rw [nextMark_line] at h
    split at h
    · next he =>
      cases rest with
      | nil => exact scanLines_nil s room
      | cons c r =>
        rw [scanLines_pass s room (by simp [isTagName, he])]
        exact ih _ (hn ▸ length_nextLine_lt c r) h rfl
    · cases h

/-- The lines before the next name are passed over. -/
theorem scanLines_lineStart {rest : Text} {m : Mark} (h : nextMark 0 rest rest = some m) :
    s.scanLines room rest = s.scanLines room m.lineStart := by
  induction hn : rest.length using Nat.strong_induction_on generalizing rest with
  | _ n ih =>
    rw [nextMark_line] at h
    split at h
    · next he =>
      cases rest with
      | nil => simp [nextLine, nextMark] at h
      | cons c r =>
        rw [scanLines_pass s room (by simp [isTagName, he])]
        exact ih _ (hn ▸ length_nextLine_lt c r) h rfl
    · next he =>
      simp only [Option.some.injEq] at h
      subst h
      rfl

/-- A comment is passed over to the end of its line. -/
theorem scanLines_comment {rest : Text} {m : Mark} (h : nextMark 0 rest rest = some m)
    (hc : Text.startsWith "//" m.name = true) :
    s.scanLines room rest = s.scanLines room (m.rest.dropWhile inLine) := by
  obtain ⟨hm, -, -⟩ := nextMark_eq_some h
  have ht : isTagName (lineMark m.lineStart).name = false := by
    rw [← hm, isTagName, hc, Bool.not_true, Bool.and_false]
  rw [scanLines_lineStart s room h, scanLines_pass s room ht, nextLine, dropWhile_lineMark, ← hm]
  exact scanLines_drop_one s room (dropWhile_inLine_cases _)

/-- The level reader, with its steps written side by side. -/
theorem readLevel_eq (indent : Nat) (lineStart rest : Text) :
    s.readLevel indent lineStart rest =
      match nextMark 0 lineStart rest with
      | none => .ok ([], [])
      | some m =>
        if Text.startsWith "//" m.name then
          s.readLevel indent m.lineStart (m.rest.dropWhile inLine)
        else if m.tabs < indent then .ok ([], m.lineStart)
        else
          match s.readTag indent m with
          | .error e => .error e
          | .ok t =>
            match (if t.tag.isBlock || t.next.length ≤ 1 then .ok ([], t.next)
              else s.readLevel (indent + 1) t.next t.next) with
            | .error e => .error e
            | .ok (children, next) =>
              if next.length < rest.length then
                match s.readLevel indent next next with
                | .error e => .error e
                | .ok (siblings, stop) => .ok (⟨t.tag, children⟩ :: siblings, stop)
              else .ok ([⟨t.tag, children⟩], next) := by
  rw [readLevel]
  split
  · next hm => rw [hm]
  · next m hm =>
    dsimp only
    rw [hm]
    dsimp only
    split
    · rfl
    · split
      · rfl
      · split
        · next e he => exact he ▸ rfl
        · next t ht => exact ht ▸ rfl

end Source

/-! ### Levels and lines -/

/-- The next tag stands above the level. -/
def StandsAbove (indent : Nat) (rest : Text) : Prop :=
  ∀ m, nextMark 0 rest rest = some m → Text.startsWith "//" m.name = false ∧ m.tabs < indent

/-- With the given room, the next tag stands no deeper than the level. -/
def Settled (indent room : Nat) (rest : Text) : Prop :=
  room = indent ∨ StandsAbove (indent + 1) rest

private theorem standsAbove_of_none {indent : Nat} {rest : Text}
    (h : nextMark 0 rest rest = none) : StandsAbove indent rest := by
  intro m hm
  rw [h] at hm
  cases hm

/-- A rest that begins with a line feed is read alike from wherever its line began. -/
theorem nextMark_at_newline {t : Text} (h : t = [] ∨ ∃ r, t = '\n' :: r)
    (lineStart : Text) : nextMark 0 lineStart t = nextMark 0 t t := by
  rcases h with rfl | ⟨r, rfl⟩
  · rfl
  · have hn : isNameChar '\n' = false := by decide
    simp [nextMark, hn]

private theorem nextMark_short {t : Text} (h : t = [] ∨ ∃ r, t = '\n' :: r) (hl : t.length ≤ 1) :
    nextMark 0 t t = none := by
  rcases h with rfl | ⟨r, rfl⟩
  · rfl
  · have hr : r = [] := by
      rw [← List.length_eq_zero_iff]
      simp only [List.length_cons] at hl
      omega
    subst hr
    decide

namespace Source

/-- What reading a level gives, seen from the lines: its elements are the next tags, and the lines
go on where the level stops, which is at a tag that stands above it or at the end of the code. -/
def Agrees (s : Source) (indent room : Nat) (rest : Text) :
    Except SourceError (List Element × Text) → Prop
  | .error e => s.scanLines room rest = .error e
  | .ok (es, stop) =>
    StandsAbove indent stop ∧ (nextMark 0 stop stop = none → stop = []) ∧
      stop.length ≤ rest.length ∧ ∃ room', indent ≤ room' ∧
        s.scanLines room rest = (s.scanLines room' stop).map (flatten indent es ++ ·)

variable {s : Source}

/-- A level that begins at a line feed is read alike from wherever its line began. -/
theorem readLevel_at_newline {t : Text} (h : t = [] ∨ ∃ r, t = '\n' :: r) (indent : Nat)
    (lineStart : Text) : s.readLevel indent lineStart t = s.readLevel indent t t := by
  rw [readLevel_eq, readLevel_eq s indent t t, nextMark_at_newline h]

/-- An element in front of its siblings. -/
theorem agrees_cons {indent room room' : Nat} {rest next : Text} {tag : Tag}
    {result : Except SourceError (List Element × Text)} (children : List Element)
    (hl : next.length ≤ rest.length)
    (hs : s.scanLines room rest =
      (s.scanLines room' next).map fun es =>
        (indent, tag) :: (flatten (indent + 1) children ++ es)) :
    s.Agrees indent room' next result → s.Agrees indent room rest
      (match result with
      | .error e => .error e
      | .ok (siblings, stop) => .ok (⟨tag, children⟩ :: siblings, stop)) := by
  intro h
  cases result with
  | error e =>
    simp only [Agrees] at h ⊢
    rw [hs, h]
    rfl
  | ok p =>
    obtain ⟨siblings, stop⟩ := p
    obtain ⟨ha, hend, hle, room'', hr, he⟩ := h
    refine ⟨ha, hend, Nat.le_trans hle hl, room'', hr, ?_⟩
    rw [hs, he]
    cases s.scanLines room'' stop with
    | error e => rfl
    | ok es => simp [Except.map]

/-- A tag with what stands below it and its siblings, if shorter rests are read as they should. -/
theorem agrees_below {indent room : Nat} {rest : Text} {t : TagLine}
    (hnext : t.next = [] ∨ ∃ r, t.next = '\n' :: r) (hl : t.next.length < rest.length)
    (hscan : s.scanLines room rest =
      (s.scanLines (roomAfter indent t.tag) t.next).map ((indent, t.tag) :: ·))
    (ih : ∀ indent room rest', rest'.length < rest.length → indent ≤ room →
      Settled indent room rest' → s.Agrees indent room rest' (s.readLevel indent rest' rest')) :
    s.Agrees indent room rest
      (match (if t.tag.isBlock || t.next.length ≤ 1 then .ok ([], t.next)
        else s.readLevel (indent + 1) t.next t.next) with
      | .error e => .error e
      | .ok (children, next) =>
        if next.length < rest.length then
          match s.readLevel indent next next with
          | .error e => .error e
          | .ok (siblings, stop) => .ok (⟨t.tag, children⟩ :: siblings, stop)
        else .ok ([⟨t.tag, children⟩], next)) := by
  by_cases hb : (t.tag.isBlock || decide (t.next.length ≤ 1)) = true
  · rw [if_pos hb]
    dsimp only
    rw [if_pos hl]
    have hroom : indent ≤ roomAfter indent t.tag := by
      rw [roomAfter]
      split <;> omega
    have hset : Settled indent (roomAfter indent t.tag) t.next := by
      rw [Bool.or_eq_true, decide_eq_true_eq] at hb
      rcases hb with hb | hb
      · exact Or.inl (by rw [roomAfter, if_pos hb])
      · exact Or.inr (standsAbove_of_none (nextMark_short hnext hb))
    exact agrees_cons [] (Nat.le_of_lt hl) hscan (ih _ _ _ hl hroom hset)
  · rw [if_neg hb]
    have hopen : roomAfter indent t.tag = indent + 1 := by
      rw [Bool.or_eq_true, not_or] at hb
      rw [roomAfter, if_neg hb.1]
    rw [hopen] at hscan
    have hbelow := ih (indent + 1) (indent + 1) t.next hl (Nat.le_refl _) (Or.inl rfl)
    cases hr : s.readLevel (indent + 1) t.next t.next with
    | error e =>
      rw [hr, Agrees] at hbelow
      dsimp only [Agrees]
      rw [hscan, hbelow]
      rfl
    | ok p =>
      obtain ⟨children, next⟩ := p
      rw [hr] at hbelow
      obtain ⟨habove, -, hle, room', hroom, he⟩ := hbelow
      have hnl : next.length < rest.length := Nat.lt_of_le_of_lt hle hl
      dsimp only
      rw [if_pos hnl]
      refine agrees_cons children (Nat.le_of_lt hnl) ?_
        (ih indent room' next hnl (Nat.le_of_succ_le hroom) (Or.inr habove))
      rw [hscan, he]
      cases s.scanLines room' next <;> rfl

/-- A level reads the tags that the lines give, as far as it goes. -/
theorem agrees_readLevel (indent room : Nat) (rest : Text) (hroom : indent ≤ room)
    (hset : Settled indent room rest) :
    s.Agrees indent room rest (s.readLevel indent rest rest) := by
  induction hn : rest.length using Nat.strong_induction_on generalizing indent room rest with
  | _ n ih =>
    subst hn
    rw [readLevel_eq]
    cases hm : nextMark 0 rest rest with
    | none =>
      refine ⟨standsAbove_of_none rfl, fun _ => rfl, Nat.zero_le _, room, hroom, ?_⟩
      rw [scanLines_of_none s room hm, scanLines_nil]
      rfl
    | some m =>
      obtain ⟨hmark, hname, hle⟩ := nextMark_eq_some hm
      have hlt : m.rest.length < rest.length := nextMark_rest_lt hm
      dsimp only
      split
      · next hc =>
        -- A comment leaves only the case in which the room is the level's own depth.
        have hri : room = indent := by
          rcases hset with h | h
          · exact h
          · have := (h m hm).1
            rw [hc] at this
            cases this
        have hd := dropWhile_inLine_cases m.rest
        have hdl : (m.rest.dropWhile inLine).length < rest.length :=
          Nat.lt_of_le_of_lt (List.dropWhile_sublist _).length_le hlt
        rw [readLevel_at_newline hd]
        have hrec := ih _ hdl indent room _ hroom (Or.inl hri) rfl
        revert hrec
        cases s.readLevel indent (m.rest.dropWhile inLine) (m.rest.dropWhile inLine) with
        | error e =>
          intro he
          exact (scanLines_comment s room hm hc).trans he
        | ok p =>
          rintro ⟨ha, hend, hsl, room', hr, he⟩
          exact ⟨ha, hend, by omega, room', hr, (scanLines_comment s room hm hc).trans he⟩
      · next hc =>
        rw [Bool.not_eq_true] at hc
        split
        · next htabs =>
          refine ⟨?_, ?_, hle, room, hroom, ?_⟩
          · intro m' hm'
            rw [nextMark_lineStart hm, Option.some.injEq] at hm'
            subst hm'
            exact ⟨hc, htabs⟩
          · intro hnone
            rw [nextMark_lineStart hm] at hnone
            cases hnone
          · rw [scanLines_lineStart s room hm]
            cases s.scanLines room m.lineStart <;> rfl
        · next htabs =>
          have hdepth : min m.tabs room = indent := by
            rcases hset with h | h
            · omega
            · have := (h m hm).2
              omega
          have htag : isTagName (lineMark m.lineStart).name = true := by
            rw [← hmark, isTagName, hc, Bool.not_false, Bool.and_true, Bool.not_eq_true',
              List.isEmpty_eq_false_iff]
            exact hname
          have hdepth' : min (lineMark m.lineStart).tabs room = indent := by rwa [← hmark]
          cases ht : s.readTag indent m with
          | error e =>
            dsimp only [Agrees]
            rw [scanLines_lineStart s room hm]
            apply scanLines_error s room htag
            rw [hdepth', ← hmark, ht]
          | ok t =>
            have hnext := readTag_next_cases ht
            have hnl : t.next.length < rest.length :=
              Nat.lt_of_le_of_lt (readTag_next_le ht) hlt
            have hscan : s.scanLines room rest =
                (s.scanLines (roomAfter indent t.tag) t.next).map ((indent, t.tag) :: ·) := by
              have := scanLines_tag (t := t) s room htag (by rw [hdepth', ← hmark, ht])
              rw [scanLines_lineStart s room hm, this, hdepth', scanLines_drop_one s _ hnext]
            exact agrees_below hnext hnl hscan fun indent room rest' hlen hr hset =>
              ih _ hlen indent room rest' hr hset rfl

/-- The outermost level reads all tags that the lines give, and stops at the end of the code. -/
theorem readLevel_zero (rest : Text) :
    (s.readLevel 0 rest rest).map (fun p => (flatten 0 p.1, p.2)) =
      (s.scanLines 0 rest).map fun tags => (tags, []) := by
  have h := agrees_readLevel (s := s) 0 0 rest (Nat.le_refl 0) (Or.inl rfl)
  cases hr : s.readLevel 0 rest rest with
  | error e =>
    rw [hr, Agrees] at h
    rw [h]
    rfl
  | ok p =>
    obtain ⟨es, stop⟩ := p
    rw [hr] at h
    obtain ⟨habove, hend, -, room', -, he⟩ := h
    have hstop : stop = [] := by
      apply hend
      cases hm : nextMark 0 stop stop with
      | none => rfl
      | some m => exact absurd (habove m hm).2 (Nat.not_lt_zero _)
    subst hstop
    rw [he, scanLines_nil]
    simp [Except.map]

end Source

private theorem except_map_map {ε α β γ : Type} (f : α → β) (g : β → γ) (x : Except ε α) :
    (x.map f).map g = x.map fun a => g (f a) := by
  cases x <;> rfl

private theorem readFrom_eq_readLevel (source : Text) (options : Options) :
    readFrom source options 0 0 =
      (Source.readLevel ⟨codeOf source, options⟩ 0 (codeOf source) (codeOf source)).map fun p =>
        ⟨p.1, Source.offset ⟨codeOf source, options⟩ p.2⟩ := by
  have hl : lineStartAt (codeOf source) 0 = codeOf source := by simp [lineStartAt]
  simp only [readFrom, hl, List.drop_zero]
  cases Source.readLevel ⟨codeOf source, options⟩ 0 (codeOf source) (codeOf source) <;> rfl

/-- Reading a whole outline gives the tags of its lines, and ends with its code. -/
theorem readFrom_zero (source : Text) (options : Options) :
    (readFrom source options 0 0).map (fun r => (flatten 0 r.elements, r.stop)) =
      (Source.scanLines ⟨codeOf source, options⟩ 0 (codeOf source)).map fun tags =>
        (tags, (codeOf source).length) := by
  have h := congrArg
    (Except.map fun p => (p.1, Source.offset ⟨codeOf source, options⟩ p.2))
    (Source.readLevel_zero (s := ⟨codeOf source, options⟩) (codeOf source))
  rw [except_map_map, except_map_map] at h
  rw [readFrom_eq_readLevel, except_map_map]
  exact h

/-- The elements of an outline are the tags of its lines. -/
theorem read_flat (source : Text) (options : Options) :
    (read source options).map (flatten 0) =
      Source.scanLines ⟨codeOf source, options⟩ 0 (codeOf source) := by
  have h := congrArg (Except.map Prod.fst) (readFrom_zero source options)
  rw [except_map_map, except_map_map] at h
  rw [read, except_map_map, h]
  cases Source.scanLines ⟨codeOf source, options⟩ 0 (codeOf source) <;> rfl

end OutlinePage.Outline
