import OutlinePage.Proofs.Modifiers
import OutlinePage.Proofs.TagPlaces

/-!
# Printed tags

A tag as it can be spelled in one line: words for its name, classes, id and attributes, values
between double quotes, and text in the rest of the line. What is read from such a line is the tag
that it spells.
-/

namespace OutlinePage.Outline

/-- The text stays within one line. -/
def OneLine (t : Text) : Prop := ∀ c ∈ t, c ≠ '\r' ∧ c ≠ '\n'

/-- A word of characters that names are made of. -/
structure Word where
  letters : Text
  ne_nil : letters ≠ []
  isNameChar_of_mem : ∀ c ∈ letters, isNameChar c = true

/-- What can stand between double quotes. -/
structure Value where
  letters : Text
  plain : ∀ c ∈ letters, c ≠ '"' ∧ c ≠ '\\'
  oneLine : OneLine letters

/-- A text within a line. -/
structure Phrase where
  letters : Text
  oneLine : OneLine letters

/-- An attribute, with a value in double quotes or with none. -/
structure Attribute where
  key : Word
  value : Option Value

/-- A tag that can be printed. -/
structure Spelling where
  name : Word
  notComment : Text.startsWith "//" name.letters = false
  classes : List Word
  id : Option Word
  attributes : List Attribute
  distinct : (attributes.map (·.key.letters)).Nodup
  text : Option Phrase
  text_ne_nil : ∀ t ∈ text, t.letters ≠ []

/-- The value with its quotes. -/
def Value.quoted (v : Value) : Text := '"' :: (v.letters ++ ['"'])

private theorem Value.quoted_eq (v : Value) : v.quoted = Outline.quoted v.letters :=
  (quoted_of_plain v.plain).symm

namespace Attribute

/-- The attribute's value as it is kept in the tag. -/
def kept (a : Attribute) : Text :=
  match a.value with
  | none => []
  | some v => v.quoted

/-- The attribute as it is printed. -/
def pair (a : Attribute) : Text :=
  match a.value with
  | none => a.key.letters
  | some v => a.key.letters ++ ('=' :: v.quoted)

end Attribute

/-- Attributes as a group in brackets. -/
def group (attributes : List Attribute) : Text :=
  '(' :: (Text.join ", " (attributes.map Attribute.pair) ++ [')'])

namespace Spelling

/-- The parts of the modifiers: the classes, the id, and one group for all attributes. -/
def parts (sp : Spelling) : List Text :=
  sp.classes.map ('.' :: ·.letters) ++ sp.id.toList.map ('#' :: ·.letters) ++
    if sp.attributes.isEmpty then [] else [group sp.attributes]

/-- What follows the modifiers in the line. -/
def ending (sp : Spelling) : Text :=
  match sp.text with
  | none => []
  | some t => ' ' :: t.letters

/-- The tag's line at the given depth. -/
def line (sp : Spelling) (depth : Nat) : Text :=
  List.replicate depth '\t' ++ (sp.name.letters ++ (sp.parts.flatten ++ sp.ending))

/-- The tag that is spelled, printed at the given depth in the line of the given number. -/
def tag (sp : Spelling) (file : Text) (depth number : Nat) : Tag where
  name := sp.name.letters
  file
  attributes := ⟨sp.attributes.map fun a => (a.key.letters, a.kept)⟩
  classes := sp.classes.map (·.letters)
  id := sp.id.map (·.letters)
  text := sp.text.map (·.letters)
  isVoid := Vocabulary.voidTags.contains sp.name.letters
  isVerbatim := Vocabulary.verbatimTags.contains sp.name.letters
  isBlock := false
  line := number
  column := depth + 1

end Spelling

/-! ### Texts within one line -/

/-- Being on one line is a property of texts put together. -/
theorem additive_oneLine : Additive OneLine := additive_forall fun c => c ≠ '\r' ∧ c ≠ '\n'

private theorem oneLine_char {c : Char} (h : c ≠ '\r' ∧ c ≠ '\n') : OneLine [c] := by
  intro x hx
  rwa [List.mem_singleton.mp hx]

/-- Two texts on one line are on one line together. -/
theorem OneLine.append {v w : Text} (hv : OneLine v) (hw : OneLine w) : OneLine (v ++ w) :=
  additive_oneLine.append hv hw

/-- So is a text with a character before it that ends no line. -/
theorem OneLine.cons {c : Char} {t : Text} (hc : c ≠ '\r' ∧ c ≠ '\n') (ht : OneLine t) :
    OneLine (c :: t) :=
  (oneLine_char hc).append ht

/-- Tabs end no line. -/
theorem oneLine_tabs (n : Nat) : OneLine (List.replicate n '\t') := by
  intro c hc
  rw [List.eq_of_mem_replicate hc]
  decide

/-- A text on one line reaches up to the next line feed. -/
theorem OneLine.span {line : Text} (h : OneLine line) (rest : Text) :
    (line ++ '\n' :: rest).takeWhile inLine = line ∧
      (line ++ '\n' :: rest).dropWhile inLine = '\n' :: rest :=
  span_append (fun c hc => inLine_eq_true.mpr (h c hc).2) rfl rest

/-- Tabs end at the first character of another kind. -/
theorem span_tabs {p : Char → Bool} (htab : p '\t' = true) {c : Char} (hc : p c = false)
    (depth : Nat) (rest : Text) :
    (List.replicate depth '\t' ++ c :: rest).takeWhile p = List.replicate depth '\t' ∧
      (List.replicate depth '\t' ++ c :: rest).dropWhile p = c :: rest :=
  span_append (fun _ hx => List.eq_of_mem_replicate hx ▸ htab) hc rest

/-! ### Texts without white space at their ends -/

/-- Neither the first nor the last character is white space. -/
def Firm (t : Text) : Prop :=
  (∀ c ∈ t.head?, Text.isBlank c = false) ∧ ∀ c ∈ t.getLast?, Text.isBlank c = false

private theorem Firm.append {v w : Text} (hv : Firm v) (hw : Firm w) : Firm (v ++ w) := by
  constructor
  · intro c hc
    rw [List.head?_append, Option.mem_def, Option.or_eq_some_iff] at hc
    rcases hc with hc | ⟨-, hc⟩
    · exact hv.1 c hc
    · exact hw.1 c hc
  · intro c hc
    rw [List.getLast?_append, Option.mem_def, Option.or_eq_some_iff] at hc
    rcases hc with hc | ⟨-, hc⟩
    · exact hw.2 c hc
    · exact hv.2 c hc

private theorem additive_firm : Additive Firm := ⟨⟨by simp, by simp⟩, Firm.append⟩

/-- A group in brackets has them at its ends. -/
theorem firm_brackets (body : Text) : Firm ('(' :: (body ++ [')'])) := by
  constructor
  · simp
    decide
  · simp [List.getLast?_cons]
    decide

private theorem dropWhile_isBlank {t : Text} (h : ∀ c ∈ t.head?, Text.isBlank c = false) :
    t.dropWhile Text.isBlank = t := by
  cases t with
  | nil => rfl
  | cons c t =>
    apply List.dropWhile_cons_of_neg
    rw [h c rfl]
    exact Bool.false_ne_true

/-- There is nothing to be stripped from a text with firm ends. -/
theorem Firm.strip_eq {t : Text} (h : Firm t) : Text.strip t = t := by
  have hr : ∀ c ∈ t.reverse.head?, Text.isBlank c = false := by
    rw [List.head?_reverse]
    exact h.2
  rw [Text.strip, Text.trimStart, Text.trimEnd, dropWhile_isBlank h.1, dropWhile_isBlank hr,
    List.reverse_reverse]

/-- A character of names is no white space. -/
theorem isBlank_of_isNameChar {c : Char} (h : isNameChar c = true) : Text.isBlank c = false := by
  have hrange : (65 ≤ c.toNat ∧ c.toNat ≤ 90 ∨ 97 ≤ c.toNat ∧ c.toNat ≤ 122 ∨
      48 ≤ c.toNat ∧ c.toNat ≤ 57) ∨ c = '_' ∨ c = '-' ∨ c = '@' ∨ c = '/' := by
    rw [isNameChar, Text.isAlnum] at h
    delta Char.isAlphanum Char.isAlpha Char.isUpper Char.isLower Char.isDigit at h
    simpa [UInt32.le_iff_toNat_le, or_assoc] using h
  rcases hrange with hr | rfl | rfl | rfl | rfl
  · simp [Text.isBlank]
    omega
  all_goals decide

namespace Word

variable (w : Word)

private theorem firm : Firm w.letters := by
  constructor
  · intro c hc
    exact isBlank_of_isNameChar (w.isNameChar_of_mem c (List.mem_of_mem_head? hc))
  · intro c hc
    exact isBlank_of_isNameChar (w.isNameChar_of_mem c (List.mem_of_mem_getLast? hc))

private theorem oneLine : OneLine w.letters := by
  intro c hc
  have hn := w.isNameChar_of_mem c hc
  exact ⟨ne_of_test hn (by decide), ne_of_test hn (by decide)⟩

end Word

/-! ### Parts of printed modifiers -/

/-- All that is needed of a part of printed modifiers to read it back. -/
structure PrintedPart (p : Text) : Prop where
  isPart : IsPart p
  passes : Passes 0 p
  firm : Firm p
  oneLine : OneLine p
  ne_dot : p ≠ "."
  afterName : ∀ c ∈ p.head?, isNameChar c = false

private theorem printedPart_mark {c : Char} (hc : c = '.' ∨ c = '#') (w : Word) :
    PrintedPart (c :: w.letters) := by
  have hw := w.isNameChar_of_mem
  have hmark : Passes 0 [c] := by
    rcases hc with rfl | rfl <;> exact passes_char (by decide) (by decide) rfl rfl rfl
  have hfirm : Firm [c] := by
    rcases hc with rfl | rfl <;> exact ⟨by simp; decide, by simp; decide⟩
  constructor
  · exact isPart_mark hc (keeps_word hw)
  · exact hmark.append (passes_word hw)
  · exact hfirm.append w.firm
  · exact w.oneLine.cons (by rcases hc with rfl | rfl <;> decide)
  · intro he
    exact w.ne_nil (List.cons.inj he).2
  · rcases hc with rfl | rfl <;> simp <;> decide

/-- An attribute is printed as its key, perhaps with `=` and a quoted value. -/
theorem pair_induction {P : Text → Prop} (hP : Additive P) (key : ∀ w : Word, P w.letters)
    (equals : P ['=']) (quoted : ∀ v : Value, P v.quoted) (a : Attribute) : P a.pair := by
  rw [Attribute.pair]
  split
  · exact key a.key
  · next v _ => exact hP.append (key a.key) (hP.append equals (quoted v))

private theorem keepsPair_pair (a : Attribute) : KeepsPair a.pair := by
  apply pair_induction additive_keepsPair
  · exact fun w => keepsPair_word w.isNameChar_of_mem
  · exact keepsPair_char rfl rfl
  · exact fun v => keepsPair_quoted fun c hc => (v.plain c hc).1

/-- A group is put together from brackets, words, quoted values and dividers. -/
theorem group_induction {P : Text → Prop} (hP : Additive P)
    (key : ∀ w : Word, P w.letters) (quoted : ∀ v : Value, P v.quoted)
    (mark : ∀ c ∈ ['=', ',', ' '], P [c]) (attributes : List Attribute) :
    P (Text.join ", " (attributes.map Attribute.pair)) := by
  have hdivider : P [',', ' '] :=
    hP.append (mark ',' (by decide)) (mark ' ' (by decide))
  apply hP.join hdivider
  intro p hp
  obtain ⟨a, -, rfl⟩ := List.mem_map.mp hp
  exact pair_induction hP key (mark '=' (by decide)) quoted a

private theorem printedPart_group (attributes : List Attribute) :
    PrintedPart (group attributes) := by
  constructor
  · apply isPart_group
    apply group_induction (additive_keeps 1)
    · exact fun w => keeps_word w.isNameChar_of_mem
    · exact fun v => v.quoted_eq ▸ keeps_quoted v.letters
    · simp only [List.mem_cons, List.not_mem_nil, or_false]
      rintro c (rfl | rfl | rfl) <;> exact keeps_char rfl (by decide) (by decide)
  · apply passes_group
    apply group_induction (additive_passes 1)
    · exact fun w => passes_word w.isNameChar_of_mem
    · exact fun v => v.quoted_eq ▸ passes_quoted (by decide) v.letters
    · simp only [List.mem_cons, List.not_mem_nil, or_false]
      rintro c (rfl | rfl | rfl) <;> exact passes_char (by decide) (by decide) rfl rfl rfl
  · exact firm_brackets _
  · have hinside : OneLine (Text.join ", " (attributes.map Attribute.pair)) := by
      apply group_induction additive_oneLine
      · exact Word.oneLine
      · exact fun v => (v.oneLine.append (oneLine_char (by decide))).cons (by decide)
      · simp only [List.mem_cons, List.not_mem_nil, or_false]
        rintro c (rfl | rfl | rfl) <;> exact oneLine_char (by decide)
    exact (hinside.append (oneLine_char (by decide))).cons (by decide)
  · intro he
    cases (List.cons.inj he).1
  · simp [group]
    decide

/-! ### Reading the parts -/

private theorem put_append {κ α : Type} [DecidableEq κ] {k : κ} {entries : List (κ × α)}
    (h : k ∉ entries.map (·.1)) (a : α) : Table.put k a entries = entries ++ [(k, a)] := by
  induction entries with
  | nil => rfl
  | cons e entries ih =>
    rw [List.map_cons, List.mem_cons, not_or] at h
    rw [Table.put, if_neg (Ne.symm h.1), ih h.2]
    rfl

/-- A pair is cut at its first equals sign. -/
theorem readPair_equals {key : Text} (hfirm : Firm key) (hkey : '=' ∉ key) (value : Text) :
    readPair (key ++ '=' :: value) = (key, value) := by
  have hpass : ∀ c ∈ key, (c != '=') = true := by
    intro c hc
    exact bne_iff_ne.mpr fun heq => hkey (heq ▸ hc)
  rw [readPair, Text.cut, List.dropWhile_append_of_pos hpass, List.takeWhile_append_of_pos hpass]
  simp [hfirm.strip_eq]

private theorem readPair_pair (a : Attribute) : readPair a.pair = (a.key.letters, a.kept) := by
  have hkey : '=' ∉ a.key.letters := fun hc =>
    ne_of_test (a.key.isNameChar_of_mem _ hc) (by decide) rfl
  rw [Attribute.pair, Attribute.kept]
  cases a.value with
  | none =>
    have hend : a.key.letters.dropWhile (· != '=') = [] := by
      rw [List.dropWhile_eq_nil_iff]
      intro c hc
      exact bne_iff_ne.mpr fun heq => hkey (heq ▸ hc)
    simp [readPair, Text.cut, hend, a.key.firm.strip_eq]
  | some v => exact readPair_equals a.key.firm hkey v.quoted

private theorem pair_ne_nil (a : Attribute) : a.pair ≠ [] := by
  rw [Attribute.pair]
  split
  · exact a.key.ne_nil
  · simp

/-- Pairs with distinct keys are written into a table one after the other. -/
theorem foldl_addPair {o : Options} (ho : o.page = []) {pairs : List Text}
    (hkeys : ∀ p ∈ pairs, (readPair p).1 ≠ []) (table : Table Text Text)
    (h : (table.keys ++ pairs.map (readPair · |>.1)).Nodup) :
    pairs.foldl (addPair o) table = ⟨table.entries ++ pairs.map readPair⟩ := by
  induction pairs generalizing table with
  | nil => simp
  | cons p pairs ih =>
    have hk : (readPair p).1.isEmpty = false :=
      List.isEmpty_eq_false_iff.mpr (hkeys p List.mem_cons_self)
    have hv : attributeValue o (readPair p).1 (readPair p).2 = (readPair p).2 := by
      simp [attributeValue, ho]
    have hfresh : (readPair p).1 ∉ table.entries.map (·.1) := by
      rw [List.map_cons, List.nodup_append] at h
      intro hm
      exact h.2.2 _ hm _ List.mem_cons_self rfl
    have hadd : addPair o table p = ⟨table.entries ++ [readPair p]⟩ := by
      simp only [addPair, hk, hv, Bool.false_eq_true, if_false]
      rw [Table.insert, put_append hfresh]
    rw [List.foldl_cons, hadd, ih fun q hq => hkeys q (List.mem_cons_of_mem p hq)]
    · simp
    · simpa [Table.keys] using h

/-- What is inside of a group stands between its brackets. -/
theorem groupBody_brackets (body : Text) : groupBody ('(' :: (body ++ [')'])) = body := by
  have he : Text.endsWith ")" ('(' :: (body ++ [')'])) = true := by
    rw [Text.endsWith, List.isSuffixOf_iff_suffix]
    exact ⟨'(' :: body, rfl⟩
  rw [groupBody, if_pos he, List.drop_one, List.tail_cons, List.dropLast_concat]

namespace Spelling

variable (sp : Spelling)

private theorem printedPart_of_mem {p : Text} (h : p ∈ sp.parts) : PrintedPart p := by
  rw [parts, List.mem_append, List.mem_append, List.mem_map, List.mem_map] at h
  rcases h with (⟨w, -, rfl⟩ | ⟨w, -, rfl⟩) | h
  · exact printedPart_mark (Or.inl rfl) w
  · exact printedPart_mark (Or.inr rfl) w
  · split at h
    · cases h
    · rw [List.mem_singleton.mp h]
      exact printedPart_group sp.attributes

private theorem filter_words {p : Text → Bool} {c : Char} {kept : Bool}
    (h : ∀ w : Word, p (c :: w.letters) = kept) (ws : List Word) :
    (ws.map (c :: ·.letters)).filter p = if kept then ws.map (c :: ·.letters) else [] := by
  cases kept with
  | true =>
    rw [if_pos rfl, List.filter_eq_self]
    intro t ht
    obtain ⟨w, -, rfl⟩ := List.mem_map.mp ht
    exact h w
  | false =>
    rw [if_neg Bool.false_ne_true, List.filter_eq_nil_iff]
    intro t ht
    obtain ⟨w, -, rfl⟩ := List.mem_map.mp ht
    rw [h w]
    exact Bool.false_ne_true

/-- A choice among the parts that goes by their kind. -/
theorem filter_parts {p : Text → Bool} {dot hash bracket : Bool}
    (hd : ∀ w : Word, p ('.' :: w.letters) = dot) (hh : ∀ w : Word, p ('#' :: w.letters) = hash)
    (hb : p (group sp.attributes) = bracket) :
    sp.parts.filter p =
      (if dot then sp.classes.map ('.' :: ·.letters) else []) ++
        (if hash then sp.id.toList.map ('#' :: ·.letters) else []) ++
        if bracket && !sp.attributes.isEmpty then [group sp.attributes] else [] := by
  rw [parts, List.filter_append, List.filter_append, filter_words hd, filter_words hh]
  congr 1
  cases he : sp.attributes.isEmpty <;> cases bracket <;> simp [hb]

private theorem readAttributes_parts {o : Options} (ho : o.page = []) :
    readAttributes o sp.parts = ⟨sp.attributes.map fun a => (a.key.letters, a.kept)⟩ := by
  have hgroups : sp.parts.filter (Text.startsWith "(") =
      if sp.attributes.isEmpty then [] else [group sp.attributes] := by
    rw [sp.filter_parts (fun _ => rfl) (fun _ => rfl) rfl]
    cases sp.attributes.isEmpty <;> rfl
  rw [readAttributes, hgroups]
  split
  · next he =>
    rw [List.isEmpty_iff.mp he]
    rfl
  · rw [List.flatMap_cons, List.flatMap_nil, List.append_nil, group, groupBody_brackets,
      splitPairs_join, foldl_addPair ho]
    · simp [readPair_pair, Function.comp_def]
    · intro p hp
      obtain ⟨a, -, rfl⟩ := List.mem_map.mp hp
      rw [readPair_pair]
      exact a.key.ne_nil
    · simpa [Table.keys, readPair_pair, Function.comp_def] using sp.distinct
    · intro p hp
      obtain ⟨a, -, rfl⟩ := List.mem_map.mp hp
      exact ⟨pair_ne_nil a, keepsPair_pair a⟩

private theorem readClasses_parts : readClasses sp.parts = sp.classes.map (·.letters) := by
  have hlong (w : Word) : (Text.startsWith "." ('.' :: w.letters) &&
      decide (('.' :: w.letters).length > 1)) = true := by
    have := List.length_pos_iff.mpr w.ne_nil
    simpa [Text.startsWith] using this
  have hgroup : (Text.startsWith "." (group sp.attributes) &&
      decide ((group sp.attributes).length > 1)) = false := rfl
  rw [readClasses, sp.filter_parts hlong (fun _ => rfl) hgroup]
  simp [Function.comp_def]

private theorem readId_parts : readId sp.parts = sp.id.map (·.letters) := by
  rw [readId, ← List.head?_filter, sp.filter_parts (fun _ => rfl) (fun _ => rfl) rfl]
  cases sp.id <;> rfl

/-! ### Reading the line -/

private theorem passes_parts : Passes 0 sp.parts.flatten :=
  (additive_passes 0).flatten fun _ hp => (sp.printedPart_of_mem hp).passes

private theorem splitModifiers_parts : splitModifiers (Text.strip sp.parts.flatten) = sp.parts := by
  have hfirm : Firm sp.parts.flatten :=
    additive_firm.flatten fun _ hp => (sp.printedPart_of_mem hp).firm
  rw [hfirm.strip_eq, splitModifiers_flatten fun _ hp => (sp.printedPart_of_mem hp).isPart]

private theorem getLast?_parts : (sp.parts.getLast? == some ".") = false := by
  rw [beq_eq_false_iff_ne]
  intro hl
  exact (sp.printedPart_of_mem (List.mem_of_getLast? hl)).ne_dot rfl

private theorem oneLine_ending : OneLine sp.ending := by
  rw [ending]
  split
  · exact additive_oneLine.nil
  · next t _ => exact t.oneLine.cons (by decide)

/-- A printed tag is on one line. -/
theorem oneLine_line (depth : Nat) : OneLine (sp.line depth) := by
  have hparts : OneLine sp.parts.flatten :=
    additive_oneLine.flatten fun _ hp => (sp.printedPart_of_mem hp).oneLine
  exact (oneLine_tabs depth).append (sp.name.oneLine.append (hparts.append sp.oneLine_ending))

/-- What follows the name in the line does not belong to it. -/
theorem isNameChar_afterName (rest : Text) :
    ∀ c ∈ (sp.parts.flatten ++ (sp.ending ++ '\n' :: rest)).head?, isNameChar c = false := by
  cases hp : sp.parts with
  | nil =>
    rw [ending]
    split <;> simp <;> decide
  | cons p ps =>
    have hpart := sp.printedPart_of_mem (hp ▸ List.mem_cons_self)
    obtain ⟨c, r, rfl⟩ := List.exists_cons_of_ne_nil hpart.isPart.1
    exact hpart.afterName

private theorem line_append (depth : Nat) (rest : Text) :
    sp.line depth ++ '\n' :: rest = List.replicate depth '\t' ++
      (sp.name.letters ++ (sp.parts.flatten ++ (sp.ending ++ '\n' :: rest))) := by
  simp only [line, List.append_assoc]

/-- In front of the name there are as many tabs as the tag is deep. -/
theorem takeWhile_isFiller_line (depth : Nat) (rest : Text) :
    (sp.line depth ++ '\n' :: rest).takeWhile isFiller = List.replicate depth '\t' ∧
      (sp.line depth ++ '\n' :: rest).dropWhile isFiller =
        sp.name.letters ++ (sp.parts.flatten ++ (sp.ending ++ '\n' :: rest)) := by
  obtain ⟨c, w, hname⟩ := List.exists_cons_of_ne_nil sp.name.ne_nil
  have hc : isFiller c = false := by
    have := sp.name.isNameChar_of_mem c (hname ▸ List.mem_cons_self)
    simp [isFiller, this]
  rw [line_append, hname]
  exact span_tabs (by decide) hc depth _

/-- The first word of a printed line is the tag's name. -/
theorem lineMark_line (depth : Nat) (rest : Text) :
    lineMark (sp.line depth ++ '\n' :: rest) =
      ⟨depth, sp.line depth ++ '\n' :: rest, sp.name.letters,
        sp.parts.flatten ++ (sp.ending ++ '\n' :: rest)⟩ := by
  obtain ⟨htabs, hword⟩ := sp.takeWhile_isFiller_line depth rest
  obtain ⟨c, r, hafter⟩ := List.exists_cons_of_ne_nil
    (l := sp.parts.flatten ++ (sp.ending ++ '\n' :: rest)) (by simp)
  have hc := sp.isNameChar_afterName rest c (by rw [hafter]; rfl)
  obtain ⟨hname, hrest⟩ := span_append sp.name.isNameChar_of_mem hc r
  rw [lineMark, htabs, hword, hafter, hname, hrest, List.count_replicate_self]

/-- What follows the modifiers, up to the end of the line, is the text. -/
theorem textOf_ending (rest : Text) :
    textOf (((sp.ending ++ '\n' :: rest).drop 1).take
      ((sp.ending ++ '\n' :: rest).length - 1 - ('\n' :: rest).length)) =
        sp.text.map (·.letters) := by
  rw [ending]
  cases ht : sp.text with
  | none => simp [textOf]
  | some t =>
    have hne := List.isEmpty_eq_false_iff.mpr (sp.text_ne_nil t ht)
    have hlen : (' ' :: t.letters ++ '\n' :: rest).length - 1 - ('\n' :: rest).length =
        t.letters.length := by
      simp only [List.length_append, List.length_cons]
      omega
    rw [hlen, List.cons_append, List.drop_one, List.tail_cons, List.take_left, textOf, hne]
    rfl

/-- What is read from a printed line is the tag that it spells. -/
theorem readTag_line {s : Source} {before rest : Text} {depth : Nat} (indent : Nat)
    (hcode : s.code = before ++ (sp.line depth ++ '\n' :: rest)) (hbefore : Whole before)
    (hpage : s.options.page = []) :
    s.readTag indent (lineMark (sp.line depth ++ '\n' :: rest)) =
      .ok ⟨sp.tag s.options.file depth (before.count '\n' + 1), '\n' :: rest⟩ := by
  have hplace := lineColumn_lineMark hcode hbefore
  rw [(sp.takeWhile_isFiller_line depth rest).1, List.length_replicate, sp.lineMark_line] at hplace
  have hscan : scanModifiers (sp.parts.flatten ++ (sp.ending ++ '\n' :: rest)) =
      some (sp.parts.flatten, sp.ending ++ '\n' :: rest) := by
    rw [ending]
    split
    · exact scanModifiers_of_passes sp.passes_parts (Or.inr rfl) rest
    · next t _ =>
      exact scanModifiers_of_passes sp.passes_parts (Or.inl rfl) (t.letters ++ '\n' :: rest)
  have hnext := (sp.oneLine_ending.span rest).2
  rw [sp.lineMark_line, Source.readTag, hscan]
  simp only [sp.splitModifiers_parts, sp.getLast?_parts, Bool.false_eq_true, if_false, hnext,
    sp.readAttributes_parts hpage, sp.readClasses_parts, sp.readId_parts, sp.textOf_ending, hplace]
  rfl

end Spelling

end OutlinePage.Outline
