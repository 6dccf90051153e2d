import OutlinePage.Proofs.OpaqueBlocks

/-!
# Quoted values

The value of an attribute can be any text within a line: it is put between double quotes, with a
backslash before each double quote and each backslash. The scan to the end of the modifiers and the
cut into parts go by the backslashes, so for them a value ends where it was meant to end. The cut
into pairs does not: for it every double quote of the value closes or opens a quoted text. So the
attributes are read as they were written exactly if this does no harm, that is if no comma and no
white space of a value comes to stand outside of quotes, and the quote after each value but the last
closes one.
-/

namespace OutlinePage.Outline

/-- A character without a meaning of its own in a group of attributes, such as every letter. -/
def isKeyChar (c : Char) : Bool :=
  !(Text.isBlank c || Text.isQuote c || isOpener c || isCloser c || c == ',' || c == '=' ||
    c == '\\')

/-- An attribute, with any text within a line for its value. -/
structure QuotedPair where
  key : Text
  value : Text
  key_ne_nil : key ≠ []
  keyChars : key.all isKeyChar = true
  newline_not_mem : '\n' ∉ value

namespace QuotedPair

/-- The attribute as it is written. -/
def spelled (p : QuotedPair) : Text := p.key ++ '=' :: quoted p.value

/-- The attribute as it should be read. -/
def entry (p : QuotedPair) : Text × Text := (p.key, quoted p.value)

private theorem isKeyChar_of_mem (p : QuotedPair) : ∀ c ∈ p.key, isKeyChar c = true :=
  List.all_eq_true.mp p.keyChars

end QuotedPair

/-- Attributes with commas between them. -/
def pairsText (pairs : List QuotedPair) : Text := Text.join ", " (pairs.map QuotedPair.spelled)

/-- Attributes as a group in brackets. -/
def quotedGroup (pairs : List QuotedPair) : Text := '(' :: (pairsText pairs ++ [')'])

/-- The quote that the cut into pairs is in after one more character. -/
def quoteStep (quote : Option Char) (c : Char) : Option Char :=
  match quote with
  | some q => if c = q then none else some q
  | none => if Text.isQuote c then some c else none

/-- The quote that the cut into pairs is in after a text. -/
def quoteAfter (quote : Option Char) (t : Text) : Option Char := t.foldl quoteStep quote

/-- The text has no divider of pairs outside of quotes. -/
def Undivided : Option Char → Text → Prop
  | _, [] => True
  | quote, c :: t => (quote = none → isPairDivider c = false) ∧ Undivided (quoteStep quote c) t

instance decidableUndivided : ∀ quote t, Decidable (Undivided quote t)
  | _, [] => isTrue trivial
  | quote, c :: t =>
    have := decidableUndivided (quoteStep quote c) t
    inferInstanceAs (Decidable (_ ∧ _))

/-- Within double quotes, the values do not disturb the cut into pairs: none of them is divided, and
each but the last leaves it in the quote in which it began. -/
def Undisturbed (pairs : List QuotedPair) : Prop :=
  (∀ p ∈ pairs, Undivided (some '"') p.value) ∧
    ∀ p ∈ pairs.dropLast, quoteAfter (some '"') p.value = some '"'

instance (pairs : List QuotedPair) : Decidable (Undisturbed pairs) :=
  inferInstanceAs (Decidable (_ ∧ _))

private theorem undisturbed_cons {p : QuotedPair} {pairs : List QuotedPair} :
    Undisturbed (p :: pairs) ↔ Undivided (some '"') p.value ∧
      (pairs ≠ [] → quoteAfter (some '"') p.value = some '"') ∧ Undisturbed pairs := by
  cases pairs with
  | nil => simp [Undisturbed]
  | cons q pairs =>
    simp only [Undisturbed, List.dropLast_cons_cons, List.forall_mem_cons, ne_eq, reduceCtorEq,
      not_false_eq_true, forall_const]
    exact ⟨fun ⟨⟨hp, hrest⟩, hq, hlast⟩ => ⟨hp, hq, hrest, hlast⟩,
      fun ⟨hp, hq, hrest, hlast⟩ => ⟨⟨hp, hrest⟩, hq, hlast⟩⟩

/-! ### Keys and groups -/

private theorem isKeyChar_plain {c : Char} (h : isKeyChar c = true) :
    Text.isBlank c = false ∧ Text.isQuote c = false ∧ isOpener c = false ∧ isCloser c = false ∧
      c ≠ ',' ∧ c ≠ '=' ∧ c ≠ '\\' := by
  simpa [isKeyChar, and_assoc] using h

private theorem isPairDivider_of_isKeyChar {c : Char} (h : isKeyChar c = true) :
    isPairDivider c = false := by
  have hne {d : Char} (hd : isKeyChar d = false) : (c == d) = false :=
    beq_eq_false_iff_ne.mpr (ne_of_test h hd)
  rw [isPairDivider, hne (by decide), hne (by decide), hne (by decide), hne (by decide)]
  rfl

/-- A group is put together from characters without a meaning, marks and quoted values. -/
theorem pairsText_induction {P : Text → Prop} (hP : Additive P)
    (letter : ∀ c, isKeyChar c = true → P [c]) (mark : ∀ c ∈ ['=', ',', ' '], P [c])
    (value : ∀ p : QuotedPair, P (quoted p.value)) (pairs : List QuotedPair) :
    P (pairsText pairs) := by
  have hdivider : P [',', ' '] := hP.append (mark ',' (by decide)) (mark ' ' (by decide))
  apply hP.join hdivider
  intro t ht
  obtain ⟨p, -, rfl⟩ := List.mem_map.mp ht
  have hkey : P p.key := hP.chars fun c hc => letter c (p.isKeyChar_of_mem c hc)
  exact hP.append hkey (hP.append (mark '=' (by decide)) (value p))

/-- The modifiers end with the group, whatever the values are. -/
theorem passes_quotedGroup (pairs : List QuotedPair) : Passes 0 (quotedGroup pairs) := by
  apply passes_group
  apply pairsText_induction (additive_passes 1)
  · intro c hc
    obtain ⟨-, hq, ho, hcl, -, -, hb⟩ := isKeyChar_plain hc
    exact passes_char hb (by simp) hq ho hcl
  · simp only [List.mem_cons, List.not_mem_nil, or_false]
    rintro c (rfl | rfl | rfl) <;> exact passes_char (by decide) (by decide) rfl rfl rfl
  · exact fun p => passes_quoted (by decide) p.value

/-- The group is one part of the modifiers, whatever the values are. -/
theorem splitModifiers_quotedGroup (pairs : List QuotedPair) :
    splitModifiers (quotedGroup pairs) = [quotedGroup pairs] := by
  have hpart : IsPart (quotedGroup pairs) := by
    apply isPart_group
    apply pairsText_induction (additive_keeps 1)
    · intro c hc
      have hb : c ≠ '(' ∧ c ≠ ')' :=
        ⟨ne_of_test hc (by decide), ne_of_test hc (by decide)⟩
      exact keeps_char (isKeyChar_plain hc).2.1 hb (by simp)
    · simp only [List.mem_cons, List.not_mem_nil, or_false]
      rintro c (rfl | rfl | rfl) <;> exact keeps_char rfl (by decide) (by decide)
    · exact fun p => keeps_quoted p.value
  have hparts : ∀ part ∈ [quotedGroup pairs], IsPart part := by simpa using hpart
  simpa using splitModifiers_flatten hparts

private theorem strip_quotedGroup (pairs : List QuotedPair) :
    Text.strip (quotedGroup pairs) = quotedGroup pairs :=
  (firm_brackets (pairsText pairs)).strip_eq

namespace QuotedPair

variable (p : QuotedPair)

private theorem firm_key : Firm p.key := by
  constructor
  · intro c hc
    exact (isKeyChar_plain (p.isKeyChar_of_mem c (List.mem_of_mem_head? hc))).1
  · intro c hc
    exact (isKeyChar_plain (p.isKeyChar_of_mem c (List.mem_of_mem_getLast? hc))).1

/-- What is not written with letters is not in a key. -/
theorem not_mem_key {c : Char} (hc : isKeyChar c = false) : c ∉ p.key := fun hmem =>
  ne_of_test (p.isKeyChar_of_mem c hmem) hc rfl

private theorem readPair_key (value : Text) : readPair (p.key ++ '=' :: value) = (p.key, value) :=
  readPair_equals p.firm_key (p.not_mem_key (by decide)) value

end QuotedPair

private theorem pairsText_cons (p : QuotedPair) (pairs : List QuotedPair) :
    pairsText (p :: pairs) =
      p.spelled ++ if pairs = [] then [] else ',' :: ' ' :: pairsText pairs := by
  cases pairs with
  | nil => simp [pairsText, Text.join]
  | cons q pairs =>
    rw [if_neg (List.cons_ne_nil q pairs)]
    exact List.append_assoc ..

/-! ### From pair to pair through quotes -/

/-- One more character of a pair. -/
theorem splitPairsFrom_keep {quote : Option Char} {c : Char}
    (h : quote = none → isPairDivider c = false) (current rest : Text) :
    splitPairsFrom quote current (c :: rest) =
      splitPairsFrom (quoteStep quote c) (current ++ [c]) rest := by
  cases quote with
  | some q => exact splitPairsFrom.eq_def ..
  | none =>
    rw [splitPairsFrom, h rfl, quoteStep]
    by_cases hq : Text.isQuote c = true <;> simp [hq]

/-- A divider ends the pair. -/
theorem splitPairsFrom_divider {c : Char} (h : isPairDivider c = true) (current rest : Text) :
    splitPairsFrom none current (c :: rest) = closePart current (splitPairs rest) := by
  have hq : Text.isQuote c = false := by
    rw [isPairDivider] at h
    simp only [Bool.or_eq_true, beq_iff_eq] at h
    rcases h with ((rfl | rfl) | rfl) | rfl <;> rfl
  rw [splitPairsFrom]
  simp [hq, h, splitPairs]

/-- Each character either ends the pair or belongs to it. -/
theorem divider_or_kept (quote : Option Char) (c : Char) :
    quote = none ∧ isPairDivider c = true ∨ (quote = none → isPairDivider c = false) := by
  by_cases hnone : quote = none
  · cases hc : isPairDivider c with
    | true => exact .inl ⟨hnone, rfl⟩
    | false => exact .inr fun _ => rfl
  · exact .inr fun h => absurd h hnone

private theorem splitPairs_space (t : Text) : splitPairs (' ' :: t) = splitPairs t :=
  splitPairsFrom_divider rfl [] t

private theorem splitPairsFrom_undivided {quote : Option Char} {t : Text} (h : Undivided quote t)
    (current rest : Text) :
    splitPairsFrom quote current (t ++ rest) =
      splitPairsFrom (quoteAfter quote t) (current ++ t) rest := by
  induction t generalizing quote current with
  | nil => rw [List.append_nil, List.nil_append, quoteAfter, List.foldl_nil]
  | cons c t ih =>
    rw [List.cons_append, splitPairsFrom_keep h.1, ih h.2, List.append_assoc,
      List.singleton_append]
    rfl

/-- The first pair goes up to the first divider outside of quotes. -/
theorem splitPairsFrom_first (quote : Option Char) (current t : Text) :
    ∃ first rest, t = first ++ rest ∧ Undivided quote first ∧
      (rest = [] ∧ splitPairsFrom quote current t = closePart (current ++ first) [] ∨
        ∃ d later, rest = d :: later ∧ quoteAfter quote first = none ∧
          splitPairsFrom quote current t = closePart (current ++ first) (splitPairs later)) := by
  induction t generalizing quote current with
  | nil => exact ⟨[], [], rfl, trivial, .inl ⟨rfl, by rw [List.append_nil, splitPairsFrom]⟩⟩
  | cons c t ih =>
    rcases divider_or_kept quote c with ⟨rfl, hc⟩ | hkeep
    · refine ⟨[], c :: t, rfl, trivial, .inr ⟨c, t, rfl, rfl, ?_⟩⟩
      rw [List.append_nil, splitPairsFrom_divider hc]
    · obtain ⟨first, rest, rfl, hfirst, hend⟩ := ih (quoteStep quote c) (current ++ [c])
      have hcurrent : current ++ c :: first = current ++ [c] ++ first := List.append_cons ..
      refine ⟨c :: first, rest, rfl, ⟨hkeep, hfirst⟩, ?_⟩
      rw [splitPairsFrom_keep hkeep, hcurrent]
      exact hend

private theorem undivided_append {quote : Option Char} {v w : Text} :
    Undivided quote (v ++ w) ↔ Undivided quote v ∧ Undivided (quoteAfter quote v) w := by
  induction v generalizing quote with
  | nil => simp [Undivided, quoteAfter]
  | cons c v ih =>
    rw [List.cons_append, Undivided, Undivided, ih, and_assoc]
    rfl

private theorem quoteAfter_append (quote : Option Char) (v w : Text) :
    quoteAfter quote (v ++ w) = quoteAfter (quoteAfter quote v) w :=
  List.foldl_append

private theorem quoteStep_backslash {quote : Option Char} (h : quote ≠ some '\\') :
    quoteStep quote '\\' = quote := by
  cases quote with
  | none => rfl
  | some q => exact if_neg fun heq : '\\' = q => h (congrArg some heq.symm)

/-- A backslash opens no quoted text. -/
theorem quoteStep_ne_backslash {quote : Option Char} (h : quote ≠ some '\\') (c : Char) :
    quoteStep quote c ≠ some '\\' := by
  cases quote with
  | some q =>
    by_cases hc : c = q
    · simp [quoteStep, hc]
    · simpa [quoteStep, hc] using h
  | none =>
    by_cases hc : Text.isQuote c = true
    · intro heq
      have hback : c = '\\' := by simpa [quoteStep, hc] using heq
      rw [hback] at hc
      cases hc
    · simp [quoteStep, hc]

/-- Backslashes make no difference to the cut into pairs. -/
theorem undivided_escaped {quote : Option Char} (hquote : quote ≠ some '\\') (v : Text) :
    (Undivided quote (escaped v) ↔ Undivided quote v) ∧
      quoteAfter quote (escaped v) = quoteAfter quote v := by
  induction v generalizing quote with
  | nil => exact ⟨Iff.rfl, rfl⟩
  | cons c v ih =>
    have hback := quoteStep_backslash hquote
    obtain ⟨hdivided, hafter⟩ := ih (quoteStep_ne_backslash hquote c)
    rw [escaped_cons]
    split
    · constructor
      · rw [Undivided, hback, Undivided, Undivided, hdivided]
        exact and_iff_right fun _ => rfl
      · change quoteAfter (quoteStep (quoteStep quote '\\') c) (escaped v) = _
        rw [hback, hafter]
        rfl
    · exact ⟨by rw [Undivided, Undivided, hdivided], hafter⟩

/-- The quote after a value ends the value only if the cut is in a double quote there. -/
theorem quoteStep_close {quote : Option Char} :
    quoteStep quote '"' = none ↔ quote = some '"' := by
  cases quote with
  | none => simp [quoteStep, show Text.isQuote '"' = true from rfl]
  | some q =>
    by_cases hq : '"' = q
    · subst hq
      simp [quoteStep]
    · simp [quoteStep, hq, Ne.symm hq]

namespace QuotedPair

variable (p : QuotedPair)

/-- After the key the cut is in a double quote. -/
theorem splitPairs_spelled (rest : Text) :
    splitPairs (p.spelled ++ rest) =
      splitPairsFrom (some '"') (p.key ++ ['=', '"']) (escaped p.value ++ '"' :: rest) := by
  have hkey : KeepsPair p.key := by
    apply additive_keepsPair.chars
    intro c hmem
    have hc := p.isKeyChar_of_mem c hmem
    exact keepsPair_char (isKeyChar_plain hc).2.1 (isPairDivider_of_isKeyChar hc)
  have hspelled : p.spelled ++ rest =
      p.key ++ ('=' :: '"' :: (escaped p.value ++ '"' :: rest)) := by
    simp [spelled, quoted]
  rw [hspelled, splitPairs, hkey, splitPairsFrom_keep fun _ => rfl,
    splitPairsFrom_keep fun _ => rfl]
  simp [quoteStep, Text.isQuote]

private theorem undivided_value :
    (Undivided (some '"') (escaped p.value) ↔ Undivided (some '"') p.value) ∧
      quoteAfter (some '"') (escaped p.value) = quoteAfter (some '"') p.value :=
  undivided_escaped (by decide) p.value

end QuotedPair

/-- A group whose values do not disturb the cut is cut into its pairs. -/
theorem splitPairs_of_undisturbed {pairs : List QuotedPair} (h : Undisturbed pairs) :
    splitPairs (pairsText pairs) = pairs.map QuotedPair.spelled := by
  induction pairs with
  | nil => rfl
  | cons p pairs ih =>
    obtain ⟨hvalue, hclosed, hrest⟩ := undisturbed_cons.mp h
    obtain ⟨hdivided, hafter⟩ := p.undivided_value
    have hspelled : p.key ++ ['=', '"'] ++ escaped p.value ++ ['"'] = p.spelled := by
      simp [QuotedPair.spelled, quoted]
    have hne : p.spelled ≠ [] := by simp [QuotedPair.spelled]
    rw [pairsText_cons, p.splitPairs_spelled, splitPairsFrom_undivided (hdivided.mpr hvalue),
      hafter, splitPairsFrom_keep fun _ => rfl, hspelled, List.map_cons]
    by_cases hlast : pairs = []
    · rw [if_pos hlast, hlast, splitPairsFrom, closePart_of_ne_nil hne, List.map_nil]
    · rw [if_neg hlast, quoteStep_close.mpr (hclosed hlast), splitPairsFrom_divider rfl,
        closePart_of_ne_nil hne, splitPairs_space, ih hrest]

/-! ### Double quotes in pairs -/

/-- How many double quotes there are in texts. -/
def quotesIn (texts : List Text) : Nat := texts.flatten.count '"'

private theorem quotesIn_closePart (current : Text) (others : List Text) :
    quotesIn (closePart current others) = current.count '"' + quotesIn others := by
  rw [quotesIn, flatten_closePart, List.count_append, quotesIn]

/-- The cut into pairs loses no double quote. -/
theorem quotesIn_splitPairsFrom (quote : Option Char) (current t : Text) :
    quotesIn (splitPairsFrom quote current t) = current.count '"' + t.count '"' := by
  induction t generalizing quote current with
  | nil =>
    rw [splitPairsFrom, quotesIn_closePart]
    rfl
  | cons c t ih =>
    rcases divider_or_kept quote c with ⟨rfl, hc⟩ | hkeep
    · have hne : c ≠ '"' := by
        rintro rfl
        cases hc
      rw [splitPairsFrom_divider hc, quotesIn_closePart, splitPairs, ih, List.count_cons_of_ne hne]
      simp
    · rw [splitPairsFrom_keep hkeep, ih, List.count_append, Nat.add_assoc, ← List.count_append,
        List.singleton_append]

private theorem count_le_of_readPair {t key value : Text} (h : readPair t = (key, value)) :
    value.count '"' ≤ t.count '"' := by
  have hcut : ∀ v ∈ (Text.cut '=' t).2, v.Sublist t := by
    intro v hv
    rw [Text.cut] at hv
    split at hv
    · cases hv
    · next c after hdrop =>
      cases hv
      have hsub : (c :: v).Sublist t := hdrop ▸ List.dropWhile_sublist _
      exact (List.sublist_cons_self c v).trans hsub
  obtain rfl : (Text.cut '=' t).2.getD [] = value := congrArg Prod.snd h
  cases hvalue : (Text.cut '=' t).2 with
  | none => simp
  | some v => exact (hcut v hvalue).count_le '"'

/-- The double quotes of values are among those of the texts that they are read from, each from a
text of its own because the keys are distinct. -/
theorem quotesIn_values_le {pairs : List QuotedPair} (distinct : (pairs.map (·.key)).Nodup)
    {texts : List Text} (h : ∀ p ∈ pairs, ∃ t ∈ texts, readPair t = p.entry) :
    quotesIn (pairs.map (quoted ·.value)) ≤ quotesIn texts := by
  induction pairs generalizing texts with
  | nil => exact Nat.zero_le _
  | cons p pairs ih =>
    rw [List.map_cons, List.nodup_cons] at distinct
    obtain ⟨t, ht, hread⟩ := h p List.mem_cons_self
    obtain ⟨before, after, rfl⟩ := List.append_of_mem ht
    have hothers : ∀ q ∈ pairs, ∃ u ∈ before ++ after, readPair u = q.entry := by
      intro q hq
      obtain ⟨u, hu, huq⟩ := h q (List.mem_cons_of_mem p hq)
      have hne : u ≠ t := by
        rintro rfl
        have hkey : p.key = q.key := congrArg Prod.fst (hread.symm.trans huq)
        exact distinct.1 (hkey ▸ List.mem_map_of_mem hq)
      refine ⟨u, ?_, huq⟩
      simpa [hne] using hu
    have hrest := ih distinct.2 hothers
    have hfirst := count_le_of_readPair hread
    simp only [quotesIn, List.map_cons, List.flatten_append, List.flatten_cons, List.count_append]
      at hrest ⊢
    omega

private theorem count_pairsText (pairs : List QuotedPair) :
    (pairsText pairs).count '"' = quotesIn (pairs.map (quoted ·.value)) := by
  induction pairs with
  | nil => rfl
  | cons p pairs ih =>
    have hkey : p.key.count '"' = 0 :=
      List.count_eq_zero_of_not_mem (p.not_mem_key (by decide))
    have htail : (if pairs = [] then [] else ',' :: ' ' :: pairsText pairs).count '"' =
        (pairsText pairs).count '"' := by
      split
      · next hnil =>
        rw [hnil]
        rfl
      · rw [List.count_cons_of_ne (by decide), List.count_cons_of_ne (by decide)]
    rw [pairsText_cons, List.count_append, htail, ih, QuotedPair.spelled, List.count_append, hkey,
      List.count_cons_of_ne (by decide), List.map_cons]
    simp [quotesIn]

/-! ### Values that are read as they were written -/

/-- The first pair of a group begins with the first key, and goes up to the first divider outside of
quotes. -/
theorem splitPairs_pairsText_cons (p : QuotedPair) (pairs : List QuotedPair) :
    ∃ first rest others,
      escaped p.value ++ '"' :: (if pairs = [] then [] else ',' :: ' ' :: pairsText pairs) =
        first ++ rest ∧
      Undivided (some '"') first ∧
      splitPairs (pairsText (p :: pairs)) = (p.key ++ '=' :: '"' :: first) :: others ∧
      (rest ≠ [] → quoteAfter (some '"') first = none ∧ others = splitPairs rest.tail) := by
  rw [pairsText_cons, p.splitPairs_spelled]
  obtain ⟨first, rest, hsplit, hfirst, hend⟩ := splitPairsFrom_first (some '"')
    (p.key ++ ['=', '"'])
    (escaped p.value ++ '"' :: (if pairs = [] then [] else ',' :: ' ' :: pairsText pairs))
  have hpiece : p.key ++ ['=', '"'] ++ first = p.key ++ '=' :: '"' :: first := by simp
  have hne : p.key ++ '=' :: '"' :: first ≠ [] := by simp
  rw [hpiece] at hend
  rcases hend with ⟨rfl, hend⟩ | ⟨d, later, rfl, hclosed, hend⟩
  · rw [closePart_of_ne_nil hne] at hend
    exact ⟨first, [], [], hsplit, hfirst, hend, absurd rfl⟩
  · rw [closePart_of_ne_nil hne] at hend
    exact ⟨first, d :: later, splitPairs later, hsplit, hfirst, hend, fun _ => ⟨hclosed, rfl⟩⟩

/-- No other attribute is read from a pair with the first key. -/
theorem readPair_first_ne {p q : QuotedPair} {pairs : List QuotedPair}
    (distinct : ((p :: pairs).map (·.key)).Nodup) (hq : q ∈ pairs) (value : Text) :
    readPair (p.key ++ '=' :: value) ≠ q.entry := by
  intro hentry
  have hkey : p.key = q.key := congrArg Prod.fst ((p.readPair_key value).symm.trans hentry)
  have hmem : p.key ∈ pairs.map (·.key) := hkey ▸ List.mem_map_of_mem hq
  exact (List.nodup_cons.mp distinct).1 hmem

/-- If every attribute is read from one of the pairs, then the first one is read from the first
pair: that pair has a double quote in it, and without it there are too few for all values. -/
theorem first_value_eq {p : QuotedPair} {pairs : List QuotedPair} {first : Text}
    {others : List Text} (distinct : ((p :: pairs).map (·.key)).Nodup)
    (hpieces : splitPairs (pairsText (p :: pairs)) = (p.key ++ '=' :: '"' :: first) :: others)
    (found : ∀ q ∈ p :: pairs, ∃ t ∈ splitPairs (pairsText (p :: pairs)), readPair t = q.entry) :
    '"' :: first = quoted p.value := by
  by_contra hne
  rw [hpieces] at found
  have hlater : ∀ q ∈ p :: pairs, ∃ t ∈ others, readPair t = q.entry := by
    intro q hq
    obtain ⟨t, ht, htq⟩ := found q hq
    rcases List.mem_cons.mp ht with rfl | ht
    · rcases List.mem_cons.mp hq with rfl | hq
      · exact absurd (congrArg Prod.snd ((q.readPair_key _).symm.trans htq)) hne
      · exact absurd htq (readPair_first_ne distinct hq _)
    · exact ⟨t, ht, htq⟩
  have hfew := quotesIn_values_le distinct hlater
  have hall := quotesIn_splitPairsFrom none [] (pairsText (p :: pairs))
  rw [← splitPairs, hpieces, count_pairsText] at hall
  simp [quotesIn] at hall hfew
  omega

/-- If every attribute is read from one of the pairs, then the first value does not disturb the cut,
and the other attributes are read from the pairs after the first. -/
theorem undivided_of_found {p : QuotedPair} {pairs : List QuotedPair}
    (distinct : ((p :: pairs).map (·.key)).Nodup)
    (found : ∀ q ∈ p :: pairs, ∃ t ∈ splitPairs (pairsText (p :: pairs)), readPair t = q.entry) :
    Undivided (some '"') p.value ∧ (pairs ≠ [] → quoteAfter (some '"') p.value = some '"') ∧
      ∀ q ∈ pairs, ∃ t ∈ splitPairs (pairsText pairs), readPair t = q.entry := by
  obtain ⟨first, rest, others, hsplit, hfirst, hpieces, hrest⟩ :=
    splitPairs_pairsText_cons p pairs
  have hvalue := first_value_eq distinct hpieces found
  obtain rfl : first = escaped p.value ++ ['"'] := (List.cons.inj hvalue).2
  obtain ⟨hdivided, hafter⟩ := p.undivided_value
  have htail : (if pairs = [] then [] else ',' :: ' ' :: pairsText pairs) = rest := by
    rw [List.append_assoc] at hsplit
    exact (List.cons.inj (List.append_cancel_left hsplit)).2
  refine ⟨hdivided.mp (undivided_append.mp hfirst).1, fun hmore => ?_, fun q hq => ?_⟩
  · rw [if_neg hmore] at htail
    have hclosed := (hrest (htail ▸ List.cons_ne_nil _ _)).1
    rw [quoteAfter_append, hafter] at hclosed
    exact quoteStep_close.mp hclosed
  · rw [if_neg (List.ne_nil_of_mem hq)] at htail
    have hothers := (hrest (htail ▸ List.cons_ne_nil _ _)).2
    rw [← htail, List.tail_cons, splitPairs_space] at hothers
    obtain ⟨t, ht, htq⟩ := found q (List.mem_cons_of_mem p hq)
    rw [hpieces] at ht
    rcases List.mem_cons.mp ht with rfl | ht
    · exact absurd htq (readPair_first_ne distinct hq _)
    · exact ⟨t, hothers ▸ ht, htq⟩

private theorem undisturbed_of_found {pairs : List QuotedPair}
    (distinct : (pairs.map (·.key)).Nodup)
    (found : ∀ q ∈ pairs, ∃ t ∈ splitPairs (pairsText pairs), readPair t = q.entry) :
    Undisturbed pairs := by
  induction pairs with
  | nil => exact ⟨by simp, by simp⟩
  | cons p pairs ih =>
    obtain ⟨hvalue, hclosed, hlater⟩ := undivided_of_found distinct found
    exact undisturbed_cons.mpr ⟨hvalue, hclosed, ih (List.nodup_cons.mp distinct).2 hlater⟩

/-- The cut into pairs is right exactly if the values do not disturb it. -/
theorem splitPairs_pairsText_iff {pairs : List QuotedPair} (distinct : (pairs.map (·.key)).Nodup) :
    splitPairs (pairsText pairs) = pairs.map QuotedPair.spelled ↔ Undisturbed pairs := by
  refine ⟨fun h => undisturbed_of_found distinct fun q hq => ?_, splitPairs_of_undisturbed⟩
  rw [h]
  exact ⟨q.spelled, List.mem_map_of_mem hq, q.readPair_key _⟩

/-- Every entry of the attributes is read from a pair. -/
theorem mem_foldl_addPair {o : Options} (ho : o.page = []) {pairs : List Text}
    {table : Table Text Text} {entry : Text × Text}
    (h : entry ∈ (pairs.foldl (addPair o) table).entries) :
    entry ∈ table.entries ∨ ∃ t ∈ pairs, readPair t = entry := by
  induction pairs generalizing table with
  | nil => exact .inl h
  | cons p pairs ih =>
    rcases ih h with hadded | ⟨t, ht, hread⟩
    · have hvalue : attributeValue o (readPair p).1 (readPair p).2 = (readPair p).2 := by
        simp [attributeValue, ho]
      simp only [addPair, hvalue] at hadded
      split at hadded
      · exact .inl hadded
      · rcases Table.mem_put hadded with hold | rfl
        · exact .inl hold
        · exact .inr ⟨p, List.mem_cons_self, rfl⟩
    · exact .inr ⟨t, List.mem_cons_of_mem p ht, hread⟩

/-- The attributes of the group are as they were written exactly if the values do not disturb the
cut into pairs. -/
theorem readAttributes_quotedGroup_iff {pairs : List QuotedPair}
    (distinct : (pairs.map (·.key)).Nodup) {o : Options} (ho : o.page = []) :
    readAttributes o (splitModifiers (Text.strip (quotedGroup pairs))) =
      ⟨pairs.map QuotedPair.entry⟩ ↔ Undisturbed pairs := by
  have hread : readAttributes o (splitModifiers (Text.strip (quotedGroup pairs))) =
      (splitPairs (pairsText pairs)).foldl (addPair o) {} := by
    have hgroup : [quotedGroup pairs].filter (Text.startsWith "(") = [quotedGroup pairs] := rfl
    rw [strip_quotedGroup, splitModifiers_quotedGroup, readAttributes, hgroup,
      List.flatMap_singleton, quotedGroup, groupBody_brackets]
  rw [hread]
  constructor
  · intro h
    refine undisturbed_of_found distinct fun q hq => ?_
    have hmem : q.entry ∈ ((splitPairs (pairsText pairs)).foldl (addPair o) {}).entries := by
      rw [h]
      exact List.mem_map_of_mem hq
    exact (mem_foldl_addPair ho hmem).resolve_left List.not_mem_nil
  · intro h
    have hentry (p : QuotedPair) : readPair p.spelled = p.entry := p.readPair_key _
    have hkey (p : QuotedPair) : (readPair p.spelled).1 = p.key := congrArg Prod.fst (hentry p)
    rw [splitPairs_of_undisturbed h, foldl_addPair ho]
    · simp [hentry, Function.comp_def]
    · intro t ht
      obtain ⟨p, -, rfl⟩ := List.mem_map.mp ht
      rw [hkey]
      exact p.key_ne_nil
    · simpa [Table.keys, hkey, Function.comp_def] using distinct

/-- Without double quotes of its own, a value does not disturb the cut into pairs. -/
theorem undisturbed_of_no_quotes {pairs : List QuotedPair} (h : ∀ p ∈ pairs, '"' ∉ p.value) :
    Undisturbed pairs := by
  have hvalue {v : Text} (hv : '"' ∉ v) :
      Undivided (some '"') v ∧ quoteAfter (some '"') v = some '"' := by
    induction v with
    | nil => exact ⟨trivial, rfl⟩
    | cons c v ih =>
      rw [List.mem_cons, not_or] at hv
      have hstep : quoteStep (some '"') c = some '"' := if_neg (Ne.symm hv.1)
      rw [Undivided, quoteAfter, List.foldl_cons, hstep]
      exact ⟨⟨nofun, (ih hv.2).1⟩, (ih hv.2).2⟩
  exact ⟨fun p hp => (hvalue (h p hp)).1,
    fun p hp => (hvalue (h p (List.dropLast_subset _ hp))).2⟩

/-! ### Groups in a source -/

/-- Every tag of an outline is made of the pieces that follow its name in the code. -/
theorem exists_tagOf {source : Text} {o : Options} {elements : List Element}
    (hread : read source o = .ok elements) {e : Nat × Tag} (he : e ∈ flatten 0 elements) :
    ∃ modifiers body after line column,
      scanModifiers (afterName (codeOf source) e.2) = some (modifiers, body ++ '\n' :: after) ∧
        e.2 = tagOf o e.2.name modifiers body line column := by
  obtain ⟨q, -, hway⟩ := read_eq_ok_iff.mp hread
  obtain ⟨first, second, hflat⟩ := List.append_of_mem he
  rw [hflat] at hway
  obtain ⟨n, room, junk, name, modifiers, body, after, hto, -, htag, hspelled, -⟩ := hway.split
  obtain ⟨before, hcode, hbefore, hn, -⟩ := hto.change_tail
  dsimp only at hcode hn
  rw [Nat.add_comm] at hn
  subst hn
  have hlies := hspelled.lies hcode hbefore o
  rw [← htag] at hlies
  refine ⟨modifiers, body, after, before.count '\n' + 1, junk.length + 1, ?_, ?_⟩
  · rw [hlies.afterName_eq, hspelled.scan]
  · rw [htag]
    rfl

/-- A single line is its own code if it begins with a name. -/
theorem codeOf_line {line : Text} (hline : '\n' ∉ line)
    (hname : ∀ c ∈ line.head?, isNameChar c = true) : codeOf line = line ++ ['\n'] := by
  have hreturns : dropReturns line = line := by
    clear hname
    induction line with
    | nil => rfl
    | cons c line ih =>
      rw [List.mem_cons, not_or] at hline
      have hnext : ¬ Text.startsWith "\n" line = true := by
        cases line with
        | nil => decide
        | cons d line =>
          have hd : d ≠ '\n' := fun heq => hline.2 (heq ▸ List.mem_cons_self)
          simpa [Text.startsWith] using Ne.symm hd
      rw [dropReturns, if_neg fun h => hnext h.2, ih hline.2]
  have hleading : leading line = [] := by
    cases line with
    | nil => rfl
    | cons c line =>
      apply List.takeWhile_cons_of_neg
      rw [isIndent_of_isNameChar (hname c rfl)]
      exact Bool.false_ne_true
  have htabs : ' ' ∉ leading line := by
    rw [hleading]
    exact List.not_mem_nil
  rw [codeOf, normalizeIndentation, sourceLines, hreturns, Text.split_of_not_mem hline]
  simp [Text.join, tabLine_of_tabbed htabs]

private theorem newline_not_mem_quotedGroup (pairs : List QuotedPair) :
    '\n' ∉ quotedGroup pairs := by
  have hinside : ∀ c ∈ pairsText pairs, c ≠ '\n' := by
    apply pairsText_induction (additive_forall (· ≠ '\n'))
    · intro c hc d hd
      rw [List.mem_singleton.mp hd]
      exact ne_of_test hc (by decide)
    · simp
    · intro p c hc heq
      subst heq
      have hmem : '\n' ∈ escaped p.value := by simpa [quoted] using hc
      obtain ⟨d, hd, hescaped⟩ := List.mem_flatMap.mp hmem
      have hne : d ≠ '\n' := fun heq => p.newline_not_mem (heq ▸ hd)
      split at hescaped <;> simp [Ne.symm hne] at hescaped
  intro h
  have hmem : '\n' ∈ pairsText pairs := by simpa [quotedGroup] using h
  exact hinside _ hmem rfl

/-- A tag with a group, alone in its line. -/
theorem read_quotedGroup {name ending : Text} (hword : name.all isNameChar = true)
    (hname : isTagName name = true) (hline : '\n' ∉ ending)
    (hspace : ending = [] ∨ ending.head? = some ' ') (pairs : List QuotedPair) (o : Options) :
    read (name ++ (quotedGroup pairs ++ ending)) o =
      .ok [⟨tagOf o name (quotedGroup pairs) ending 1 1, []⟩] := by
  rw [List.all_eq_true] at hword
  have hgroup := newline_not_mem_quotedGroup pairs
  have hcode : codeOf (name ++ (quotedGroup pairs ++ ending)) =
      name ++ (quotedGroup pairs ++ (ending ++ ['\n'])) := by
    rw [codeOf_line]
    · simp only [List.append_assoc]
    · rw [List.mem_append, List.mem_append]
      rintro (hmem | hmem | hmem)
      · exact ne_of_test (hword _ hmem) (by decide) rfl
      · exact hgroup hmem
      · exact hline hmem
    · intro c hc
      cases name with
      | nil => cases hname
      | cons d name =>
        obtain rfl : d = c := Option.some.inj hc
        exact hword d List.mem_cons_self
  have hscan : scanModifiers (quotedGroup pairs ++ (ending ++ ['\n'])) =
      some (quotedGroup pairs, ending ++ ['\n']) := by
    cases ending with
    | nil => exact scanModifiers_of_passes (passes_quotedGroup pairs) (.inr rfl) []
    | cons c ending =>
      have hc : c = ' ' := Option.some.inj (hspace.resolve_left (List.cons_ne_nil c ending))
      exact scanModifiers_of_passes (passes_quotedGroup pairs) (.inl hc) _
  have hblock : announcesBlock (quotedGroup pairs) = false := by
    rw [announcesBlock, strip_quotedGroup, splitModifiers_quotedGroup]
    rfl
  have hspelled : Spelled 0 [] name (quotedGroup pairs) ending [] := by
    refine ⟨by simp, hword, hname, ?_, hscan, ?_, ?_⟩
    · intro c r h
      obtain rfl : '(' = c := (List.cons.inj h).1
      decide
    · intro h
      rw [hblock] at h
      cases h
    · exact fun _ c hc => inLine_eq_true.mpr fun heq => hline (heq ▸ hc)
  have hway : Reaches o ⟨1, 0, [] ++ (name ++ (quotedGroup pairs ++ (ending ++ ['\n'])))⟩ _ _ :=
    .tag rfl rfl hspelled (.refl _)
  rw [List.nil_append, ← hcode] at hway
  exact read_eq_ok_iff.mpr ⟨_, rfl, hway⟩

/-- Values between double quotes, with a backslash before each double quote and each backslash of
them, in a group after the name of a tag. Whatever the values are, the modifiers end with the group,
and the group is one part of them. But backslashes mean nothing to the cut into pairs: it gives the
pairs, and the tag has the attributes that were written, if and only if the values do not disturb
it. This is so in particular if there are no double quotes in them. -/
theorem quoted_values_kept_iff {pairs : List QuotedPair} (distinct : (pairs.map (·.key)).Nodup)
    {o : Options} (hpage : o.page = []) :
    (∀ c rest, c = ' ' ∨ c = '\n' →
        scanModifiers (quotedGroup pairs ++ c :: rest) = some (quotedGroup pairs, c :: rest)) ∧
      splitModifiers (quotedGroup pairs) = [quotedGroup pairs] ∧
      (splitPairs (groupBody (quotedGroup pairs)) = pairs.map QuotedPair.spelled ↔
        Undisturbed pairs) ∧
      (∀ source elements, read source o = .ok elements → ∀ e ∈ flatten 0 elements,
        ∀ c rest, c = ' ' ∨ c = '\n' →
          afterName (codeOf source) e.2 = quotedGroup pairs ++ c :: rest →
          (e.2.attributes = ⟨pairs.map QuotedPair.entry⟩ ↔ Undisturbed pairs)) ∧
      (∀ name ending : Text, name.all isNameChar = true → isTagName name = true →
        '\n' ∉ ending → ending = [] ∨ ending.head? = some ' ' →
          ∃ tag, read (name ++ (quotedGroup pairs ++ ending)) o = .ok [⟨tag, []⟩] ∧
            tag.name = name ∧
            (tag.attributes = ⟨pairs.map QuotedPair.entry⟩ ↔ Undisturbed pairs)) ∧
      ((∀ p ∈ pairs, '"' ∉ p.value) → Undisturbed pairs) := by
  have hattributes := readAttributes_quotedGroup_iff distinct hpage
  have hscan (c : Char) (rest : Text) (hc : c = ' ' ∨ c = '\n') :=
    scanModifiers_of_passes (passes_quotedGroup pairs) hc rest
  refine ⟨hscan, splitModifiers_quotedGroup pairs, ?_, ?_, ?_, undisturbed_of_no_quotes⟩
  · rw [quotedGroup, groupBody_brackets]
    exact splitPairs_pairsText_iff distinct
  · intro source elements hread e he c rest hc hafter
    obtain ⟨modifiers, body, after, line, column, hmodifiers, htag⟩ := exists_tagOf hread he
    rw [hafter, hscan c rest hc] at hmodifiers
    obtain ⟨rfl, -⟩ := Prod.mk.inj (Option.some.inj hmodifiers)
    rw [htag]
    exact hattributes
  · intro name ending hword hname hline hspace
    exact ⟨_, read_quotedGroup hword hname hline hspace pairs o, rfl, hattributes⟩

/-- A backslash, a comma and a space in the first value, and a double quote in the last one. -/
def harmlessPairs : List QuotedPair :=
  [⟨"k", "x\\y, z", by decide, by decide, by decide⟩,
    ⟨"m", "p\"q", by decide, by decide, by decide⟩]

/-- These values are kept: their spaces and quotes stand where they do no harm. -/
theorem quoted_values_kept_iff_at_harmless :
    ∃ tag, read "a(k=\"x\\\\y, z\", m=\"p\\\"q\") hi" { file := "i" } = .ok [⟨tag, []⟩] ∧
      tag.name = "a" ∧
      tag.attributes = ⟨[("k", "\"x\\\\y, z\""), ("m", "\"p\\\"q\"")]⟩ := by
  have hdistinct : (harmlessPairs.map (·.key)).Nodup := by decide
  have hpage : ({ file := "i" } : Options).page = [] := rfl
  obtain ⟨tag, hread, hname, hattributes⟩ := (quoted_values_kept_iff hdistinct hpage).2.2.2.2.1
    "a" " hi" (by decide) (by decide) (by decide) (by decide)
  exact ⟨tag, hread, hname, hattributes.mpr (by decide)⟩

/-- A double quote and a space in a value: the value is cut after the double quote, and the rest of
it becomes another attribute. -/
theorem quoted_space_divides :
    quotedGroup [⟨"k", "x\" y", by decide, by decide, by decide⟩] = "(k=\"x\\\" y\")".toList ∧
      ((read "a(k=\"x\\\" y\")\n" { file := "i" }).toOption.map fun elements =>
        elements.map (·.tag.attributes.entries)) =
          some [[("k".toList, "\"x\\\"".toList), ("y\"".toList, [])]] := by
  decide +kernel

end OutlinePage.Outline
