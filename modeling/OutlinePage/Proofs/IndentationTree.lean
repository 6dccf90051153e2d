import OutlinePage.Proofs.TagPlaces

/-!
# Indentation determines the tree

Which lines of an outline give an element, and at which depth. A line gives one if it has a word
that begins no comment, and if no earlier tag takes it up with its modifiers or its block of text.
The depth is the number of tabs in front of the word, but at most one more than that of the element
before, and not even one more if that element has a block of text.
-/

namespace OutlinePage.Outline

/-- The depths follow the tabs, where the first tag has at most the depth `room`. -/
def FollowsTabs (code : Text) : Nat → List (Nat × Tag) → Prop
  | _, [] => True
  | room, (depth, tag) :: tags =>
    depth = min (tabsBefore code tag) room ∧ FollowsTabs code (roomAfter depth tag) tags

/-- The line gives a tag, among the given tags: it has a word that begins no comment, and it goes on
with no tag's modifiers and lies in no tag's block of text. -/
def GivesTag (code : Text) (tags : List (Nat × Tag)) (number : Nat) : Prop :=
  (lineOf code number).any isNameChar = true ∧
    Text.startsWith "//" (firstWord (lineOf code number)) = false ∧
    ∀ e ∈ tags, ¬ ContinuesModifiers code e.2 number ∧ ¬ InsideBlock code e.1 e.2 number

/-- The way through the lines of the code from a place on, with the tags that they give. Each step
passes over one line without a tag, or takes a tag with all lines that it takes up. -/
inductive Scanned (code : Text) : Text → Nat → List (Nat × Tag) → Prop where
  | done {room : Nat} (whole : Whole code) : Scanned code code room []
  | pass {before line rest : Text} {room : Nat} {tags : List (Nat × Tag)}
    (code_eq : code = before ++ (line ++ '\n' :: rest)) (whole : Whole before)
    (inside : ∀ c ∈ line, inLine c = true) (noTag : isTagName (firstWord line) = false)
    (next : Scanned code (before ++ line ++ ['\n']) room tags) : Scanned code before room tags
  | tag {before junk modifiers body after : Text} {room : Nat} {tag : Tag}
    {tags : List (Nat × Tag)}
    (lies : Lies code (min (junk.count '\t') room) tag before junk modifiers body after)
    (next : Scanned code (before ++ (junk ++ (tag.name ++ (modifiers ++ body))) ++ ['\n'])
      (roomAfter (min (junk.count '\t') room) tag) tags) :
    Scanned code before room ((min (junk.count '\t') room, tag) :: tags)

private theorem any_isNameChar_iff (line : Text) :
    line.any isNameChar = true ↔ firstWord line ≠ [] := by
  induction line with
  | nil => simp [firstWord]
  | cons c line ih =>
    by_cases hc : isNameChar c = true
    · simp [firstWord, hc]
    · rw [Bool.not_eq_true] at hc
      simpa [firstWord, hc] using ih

private theorem isTagName_firstWord (line : Text) :
    isTagName (firstWord line) = true ↔
      line.any isNameChar = true ∧ Text.startsWith "//" (firstWord line) = false := by
  rw [any_isNameChar_iff, isTagName, Bool.and_eq_true, Bool.not_eq_true', Bool.not_eq_true',
    List.isEmpty_eq_false_iff]

/-- The name of a mark is the first word of its line. -/
theorem lineMark_name (rest : Text) : (lineMark rest).name = firstWord (rest.takeWhile inLine) := by
  induction rest with
  | nil => rfl
  | cons c rest ih =>
    by_cases hn : isNameChar c = true
    · have hi := inLine_of_isNameChar hn
      have hf : isFiller c = false := by simp [isFiller, hn]
      have ht : (rest.takeWhile inLine).takeWhile isNameChar = rest.takeWhile isNameChar := by
        rw [List.takeWhile_takeWhile]
        congr 1
        funext x
        cases hx : isNameChar x with
        | true => simp [inLine_of_isNameChar hx]
        | false => simp
      simp [lineMark, firstWord, hf, hn, hi, ht]
    · rw [Bool.not_eq_true] at hn
      by_cases hc : c = '\n'
      · subst hc
        simp [lineMark, firstWord, isFiller, hn]
      · have hi := inLine_eq_true.mpr hc
        have hf : isFiller c = true := by simp [isFiller, hn, hi]
        have : (lineMark (c :: rest)).name = (lineMark rest).name := by
          simp [lineMark, hf]
        rw [this, ih]
        simp [firstWord, hn, hi]

/-- A successful reading of the lines is a way through them. -/
theorem Source.scanned_of_scanLines {s : Source} {room : Nat} {before rest : Text}
    {tags : List (Nat × Tag)} (hwhole : Whole s.code) (hcode : s.code = before ++ rest)
    (hbefore : Whole before) (h : s.scanLines room rest = .ok tags) :
    Scanned s.code before room tags := by
  induction hn : rest.length using Nat.strong_induction_on generalizing rest room before tags with
  | _ n ih =>
    subst hn
    cases rest with
    | nil =>
      rw [scanLines_nil, Except.ok.injEq] at h
      rw [List.append_nil] at hcode
      rw [← h, ← hcode]
      exact .done hwhole
    | cons c r =>
      have hrest : Whole (c :: r) := whole_of_append (hcode ▸ hwhole)
      cases hname : isTagName (lineMark (c :: r)).name with
      | false =>
        obtain ⟨after, hafter⟩ := dropWhile_inLine_of_whole hrest (by simp)
        have hnext : nextLine (c :: r) = after := by rw [nextLine, hafter]; rfl
        have hsplit : s.code = before ++ ((c :: r).takeWhile inLine ++ '\n' :: after) := by
          rw [← hafter, List.takeWhile_append_dropWhile, hcode]
        rw [scanLines_pass s room hname, hnext] at h
        rw [lineMark_name] at hname
        refine .pass hsplit hbefore (fun _ hc => List.mem_takeWhile_imp hc) hname ?_
        refine ih after.length ?_ ?_ (whole_append_newline _) h rfl
        · exact hnext ▸ length_nextLine_lt c r
        · rw [hsplit]
          simp only [List.append_assoc, List.singleton_append]
      | true =>
        cases ht : s.readTag (min (lineMark (c :: r)).tabs room) (lineMark (c :: r)) with
        | error e =>
          rw [scanLines_error s room hname ht] at h
          cases h
        | ok t =>
          obtain ⟨modifiers, body, after, hafter, lies⟩ :=
            readTag_lies hcode hbefore hrest hname ht
          rw [scanLines_tag s room hname ht, hafter, List.drop_one, List.tail_cons] at h
          cases hs : s.scanLines (roomAfter (min (lineMark (c :: r)).tabs room) t.tag) after with
          | error e =>
            rw [hs] at h
            cases h
          | ok tags' =>
            rw [hs, Except.map, Except.ok.injEq] at h
            rw [← h]
            refine .tag lies (ih after.length ?_ lies.code_eq_after (whole_append_newline _) hs rfl)
            have h1 := Source.readTag_next_le ht
            have h2 := lineMark_rest_lt hname
            rw [hafter, List.length_cons] at h1
            omega

/-! ### What a way through the lines tells -/

section Scanned

variable {code before : Text} {room : Nat} {tags : List (Nat × Tag)}

/-- Tags lie after the place from which on they are read. -/
theorem Scanned.line_gt (h : Scanned code before room tags) :
    ∀ e ∈ tags, (before.count '\n' : Int) < e.2.line := by
  induction h with
  | done => simp
  | pass _ _ _ _ _ ih =>
    intro e he
    have := ih e he
    rw [List.count_append, List.count_append] at this
    omega
  | tag lies _ ih =>
    intro e he
    rcases List.mem_cons.mp he with rfl | he
    · rw [lies.line]
      omega
    · have := ih e he
      rw [lies.count_after] at this
      omega

/-- Tags come in the order of their lines, one in a line. -/
theorem Scanned.increasing (h : Scanned code before room tags) :
    (tags.map (·.2.line)).Pairwise (· < ·) := by
  induction h with
  | done => exact List.Pairwise.nil
  | pass _ _ _ _ _ ih => exact ih
  | tag lies next ih =>
    rw [List.map_cons, List.pairwise_cons]
    refine ⟨?_, ih⟩
    intro l hl
    obtain ⟨e, he, rfl⟩ := List.mem_map.mp hl
    have := next.line_gt e he
    rw [lies.count_after] at this
    rw [lies.line]
    omega

/-- The depths follow the tabs. -/
theorem Scanned.followsTabs (h : Scanned code before room tags) : FollowsTabs code room tags := by
  induction h with
  | done => trivial
  | pass _ _ _ _ _ ih => exact ih
  | tag lies _ ih => exact ⟨by rw [lies.tabsBefore_eq], ih⟩

/-- Each tag has the first word of its line as its name. -/
theorem Scanned.name_eq (h : Scanned code before room tags) :
    ∀ e ∈ tags, e.2.name = firstWord (lineOf code e.2.line.toNat) := by
  induction h with
  | done => simp
  | pass _ _ _ _ _ ih => exact ih
  | tag lies _ ih =>
    intro e he
    rcases List.mem_cons.mp he with rfl | he
    · exact lies.firstWord_eq.symm
    · exact ih e he

private theorem givesTag_nil {n : Nat} (h : lineOf code n = []) : ¬ GivesTag code tags n := by
  intro hg
  have := hg.1
  rw [h] at this
  cases this

private theorem le_modifiersEnd (code : Text) (tag : Tag) :
    tag.line.toNat ≤ modifiersEnd code tag := by
  rw [modifiersEnd]
  split
  · exact Nat.le_refl _
  · exact Nat.le_add_right _ _

/-- A tag takes up no line up to its own. -/
theorem not_covered_of_le {depth n : Nat} {tag : Tag} (h : n ≤ tag.line.toNat) :
    ¬ ContinuesModifiers code tag n ∧ ¬ InsideBlock code depth tag n := by
  have := le_modifiersEnd code tag
  rw [ContinuesModifiers, InsideBlock]
  exact ⟨by omega, by omega⟩

/-- For the lines after its own a tag makes no difference. -/
theorem Lies.givesTag_cons {junk modifiers body after : Text} {depth n : Nat} {tag : Tag}
    (lies : Lies code depth tag before junk modifiers body after)
    (hn : before.count '\n' + 1 + modifiers.count '\n' + body.count '\n' < n) :
    GivesTag code ((depth, tag) :: tags) n ↔ GivesTag code tags n := by
  by_cases hafter : after = []
  · have hcode := lies.code_eq_after
    rw [hafter, List.append_nil] at hcode
    have hnil : lineOf code n = [] := by
      rw [hcode]
      apply lineOf_of_count_lt (whole_append_newline _)
      rwa [lies.count_after]
    exact iff_of_false (givesTag_nil hnil) (givesTag_nil hnil)
  · rw [GivesTag, GivesTag, List.forall_mem_cons, and_iff_right (lies.leaves hn hafter)]

/-- The lines from a place on that give a tag are those of the tags. -/
theorem Scanned.exists_line_iff (h : Scanned code before room tags) (n : Nat)
    (hn : before.count '\n' < n) :
    (∃ e ∈ tags, e.2.line = (n : Int)) ↔ GivesTag code tags n := by
  induction h with
  | done whole =>
    simp only [List.not_mem_nil, false_and, exists_false, false_iff]
    exact givesTag_nil (lineOf_of_count_lt whole hn)
  | @pass before line rest room tags code_eq whole inside noTag next ih =>
    have hcount : (before ++ line ++ ['\n']).count '\n' = before.count '\n' + 1 := by
      rw [List.count_append, List.count_append, count_newline_eq_zero inside]
      rfl
    by_cases he : n = before.count '\n' + 1
    · have hline : lineOf code n = line := by
        rw [he, code_eq, lineOf_count whole, List.takeWhile_append_of_pos inside]
        simp
      constructor
      · rintro ⟨e, hm, hl⟩
        have := next.line_gt e hm
        rw [hcount] at this
        omega
      · rintro ⟨hany, hcom, -⟩
        rw [hline] at hany hcom
        rw [(isTagName_firstWord line).mpr ⟨hany, hcom⟩] at noTag
        cases noTag
    · exact ih (by omega)
  | @tag before junk modifiers body after room tag tags lies next ih =>
    have hcount := lies.count_after
    have hlater (e : Nat × Tag) (he : e ∈ tags) :
        (before.count '\n' + 1 + modifiers.count '\n' + body.count '\n' : Nat) < e.2.line := by
      have := next.line_gt e he
      rwa [hcount] at this
    have hown : tag.line.toNat = before.count '\n' + 1 := lies.toNat_line
    -- The line with the name, the lines that the tag takes up, and the lines after them.
    rcases Nat.lt_trichotomy n (before.count '\n' + 1) with hlt | heq | hgt
    · omega
    · refine ⟨fun _ => ?_, fun _ => ⟨_, List.mem_cons_self, by rw [lies.line, heq]⟩⟩
      have hword := lies.firstWord_eq
      rw [hown, ← heq] at hword
      have htag := (isTagName_firstWord (lineOf code n)).mp (by rw [hword]; exact lies.isTag)
      refine ⟨htag.1, htag.2, ?_⟩
      intro e he
      apply not_covered_of_le
      rcases List.mem_cons.mp he with rfl | he
      · exact Nat.le_of_eq (heq.trans hown.symm)
      · have := hlater e he
        omega
    · have hne : tag.line ≠ (n : Int) := by
        rw [lies.line]
        omega
      have hmem : (∃ e ∈ (min (junk.count '\t') room, tag) :: tags, e.2.line = (n : Int)) ↔
          ∃ e ∈ tags, e.2.line = (n : Int) := by
        simp [hne]
      rw [hmem]
      by_cases hle : n ≤ before.count '\n' + 1 + modifiers.count '\n' + body.count '\n'
      · constructor
        · rintro ⟨e, he, hl⟩
          have := hlater e he
          omega
        · intro hg
          obtain ⟨hc, hb⟩ := hg.2.2 _ List.mem_cons_self
          exact absurd (lies.covers hgt hle) (not_or.mpr ⟨hc, hb⟩)
      · rw [ih (by omega), lies.givesTag_cons (by omega)]

end Scanned

/-! ### The tree -/

private theorem FollowsTabs.first {code : Text} {room : Nat} {tags : List (Nat × Tag)}
    (h : FollowsTabs code room tags) {a : Nat × Tag} (ha : tags[0]? = some a) : a.1 ≤ room := by
  cases tags with
  | nil => cases ha
  | cons e tags =>
    rw [List.getElem?_cons_zero, Option.some.injEq] at ha
    subst ha
    rw [h.1]
    exact Nat.min_le_right _ _

private theorem FollowsTabs.later {code : Text} {room : Nat} {tags : List (Nat × Tag)}
    (h : FollowsTabs code room tags) {k : Nat} {a b : Nat × Tag} (ha : tags[k]? = some a)
    (hb : tags[k + 1]? = some b) : b.1 = min (tabsBefore code b.2) (roomAfter a.1 a.2) := by
  induction tags generalizing k room with
  | nil => cases ha
  | cons e tags ih =>
    rw [List.getElem?_cons_succ] at hb
    cases k with
    | zero =>
      rw [List.getElem?_cons_zero, Option.some.injEq] at ha
      subst ha
      cases tags with
      | nil => cases hb
      | cons e' tags =>
        rw [List.getElem?_cons_zero, Option.some.injEq] at hb
        subst hb
        exact h.2.1
    | succ k =>
      rw [List.getElem?_cons_succ] at ha
      exact ih h.2 ha hb

/-- Code is made of whole lines. -/
theorem whole_codeOf (source : Text) : Whole (codeOf source) := whole_append_newline _

/-- Reading level by level gives the tags that reading line by line gives, with their depths, and
these determine the tree. In an outline that can be read, the first element has depth 0. The depth
of each later one is the number of tabs in front of its name, but at most one more than the depth of
the element before, or no more than that depth if the element before has a block of text. The
elements come in the order of their lines, and a line is the line of an element exactly if it has a
word that begins no comment, goes on with no tag's modifiers and lies in no block of text; the word
is the element's name. -/
theorem indentation_determines_tree (source : Text) (options : Options) :
    (read source options).map (flatten 0) =
        Source.scanLines ⟨codeOf source, options⟩ 0 (codeOf source) ∧
      Function.Injective (flatten 0) ∧
      ∀ elements, read source options = .ok elements →
        (∀ a, (flatten 0 elements)[0]? = some a → a.1 = 0) ∧
        (∀ k a b, (flatten 0 elements)[k]? = some a → (flatten 0 elements)[k + 1]? = some b →
          b.1 = min (tabsBefore (codeOf source) b.2) (if a.2.isBlock then a.1 else a.1 + 1)) ∧
        ((flatten 0 elements).map (·.2.line)).Pairwise (· < ·) ∧
        (∀ e ∈ flatten 0 elements, e.2.name = firstWord (lineOf (codeOf source) e.2.line.toNat)) ∧
        ∀ n : Nat, 0 < n → ((∃ e ∈ flatten 0 elements, e.2.line = n) ↔
          GivesTag (codeOf source) (flatten 0 elements) n) := by
  refine ⟨read_flat source options, flatten_injective 0, ?_⟩
  intro elements hread
  have hflat := read_flat source options
  rw [hread] at hflat
  have scanned : Scanned (codeOf source) [] 0 (flatten 0 elements) :=
    Source.scanned_of_scanLines (s := ⟨codeOf source, options⟩) (whole_codeOf source) rfl whole_nil
      hflat.symm
  refine ⟨?_, ?_, scanned.increasing, scanned.name_eq, ?_⟩
  · intro a ha
    exact Nat.le_zero.mp (scanned.followsTabs.first ha)
  · intro k a b ha hb
    exact scanned.followsTabs.later ha hb
  · intro n hn
    exact scanned.exists_line_iff n hn

/-- Modifiers over two lines, a block, a comment, and a tag that is deeper than the one above
allows. -/
theorem indentation_determines_tree_at_list :
    ∃ elements,
      read "\tul\n\t\tli(a\n b).\n\t\t\tx\n\t// c\n\t\t\tb y\n" { file := "i" } = .ok elements ∧
      (flatten 0 elements).map (·.1) = [0, 1, 1] ∧
      ∀ n : Nat, 0 < n → ((∃ e ∈ flatten 0 elements, e.2.line = n) ↔
        GivesTag (codeOf "\tul\n\t\tli(a\n b).\n\t\t\tx\n\t// c\n\t\t\tb y\n")
          (flatten 0 elements) n) := by
  have h : ((read "\tul\n\t\tli(a\n b).\n\t\t\tx\n\t// c\n\t\t\tb y\n" { file := "i" }).toOption.map
      fun elements => (flatten 0 elements).map (·.1)) = some [0, 1, 1] := by
    decide +kernel
  cases hr : read "\tul\n\t\tli(a\n b).\n\t\t\tx\n\t// c\n\t\t\tb y\n" { file := "i" } with
  | error e =>
    rw [hr] at h
    cases h
  | ok elements =>
    rw [hr] at h
    exact ⟨elements, rfl, Option.some.inj h, ((indentation_determines_tree _ _).2.2 _ hr).2.2.2.2⟩

end OutlinePage.Outline
