import OutlinePage.Proofs.Lines

/-!
# What the scanners of modifiers pass over

Three scanners go over modifiers: one to their end, one from part to part, and one from pair to pair
within a group of attributes. For each of them there is a notion of a text that it passes over as a
whole, whatever follows, so that longer texts can be put together from shorter ones.
-/

namespace OutlinePage.Outline

/-- Characters that differ in some respect are different. -/
theorem ne_of_test {test : Char → Bool} {c d : Char} (hc : test c = true) (hd : test d = false) :
    c ≠ d := by
  rintro rfl
  rw [hc] at hd
  cases hd

/-- Characters of names have no meaning of their own to the scanners. -/
theorem isNameChar_plain {c : Char} (h : isNameChar c = true) :
    Text.isQuote c = false ∧ isOpener c = false ∧ isCloser c = false ∧ isPairDivider c = false := by
  have hne {d : Char} (hd : isNameChar d = false) : (c == d) = false :=
    beq_eq_false_iff_ne.mpr (ne_of_test h hd)
  simp only [Text.isQuote, isOpener, isCloser, isPairDivider, Bool.or_eq_false_iff]
  refine ⟨⟨hne ?_, hne ?_⟩, ⟨⟨hne ?_, hne ?_⟩, hne ?_⟩, ⟨⟨hne ?_, hne ?_⟩, hne ?_⟩,
    ⟨⟨hne ?_, hne ?_⟩, hne ?_⟩, hne ?_⟩ <;> decide

/-- A character of names is no indentation. -/
theorem isIndent_of_isNameChar {c : Char} (h : isNameChar c = true) : Text.isIndent c = false := by
  rw [Text.isIndent, Bool.or_eq_false_iff, beq_eq_false_iff_ne, beq_eq_false_iff_ne]
  exact ⟨ne_of_test h (by decide), ne_of_test h (by decide)⟩

/-! ### Properties of texts put together -/

/-- A property that holds of texts put together if it holds of each of them. -/
structure Additive (P : Text → Prop) : Prop where
  nil : P []
  append : ∀ {v w : Text}, P v → P w → P (v ++ w)

namespace Additive

variable {P : Text → Prop}

/-- It holds of pieces put together. -/
theorem flatten (hP : Additive P) {ps : List Text} (h : ∀ p ∈ ps, P p) : P ps.flatten := by
  induction ps with
  | nil => exact hP.nil
  | cons p ps ih =>
    exact hP.append (h p List.mem_cons_self) (ih fun q hq => h q (List.mem_cons_of_mem p hq))

/-- It holds of pieces put together with something between them. -/
theorem join (hP : Additive P) {d : Text} (hd : P d) {ps : List Text} (h : ∀ p ∈ ps, P p) :
    P (Text.join d ps) := by
  induction ps with
  | nil => exact hP.nil
  | cons p ps ih =>
    have hp := h p List.mem_cons_self
    have hrest := ih fun q hq => h q (List.mem_cons_of_mem p hq)
    cases ps with
    | nil => exact hp
    | cons q ps => exact hP.append (hP.append hp hd) hrest

/-- A text is put together from its characters. -/
theorem chars (hP : Additive P) {w : Text} (h : ∀ c ∈ w, P [c]) : P w := by
  induction w with
  | nil => exact hP.nil
  | cons c w ih =>
    exact hP.append (h c List.mem_cons_self) (ih fun x hx => h x (List.mem_cons_of_mem c hx))

end Additive

/-- What holds of all characters of a text is such a property. -/
theorem additive_forall (Q : Char → Prop) : Additive fun t => ∀ c ∈ t, Q c := by
  constructor
  · simp
  · intro v w hv hw c hc
    exact (List.mem_append.mp hc).elim (hv c) (hw c)

/-! ### Quoted values -/

/-- The text with a backslash before each double quote and each backslash. -/
def escaped (value : Text) : Text :=
  value.flatMap fun c => if c = '"' ∨ c = '\\' then ['\\', c] else [c]

/-- A value between double quotes. -/
def quoted (value : Text) : Text := '"' :: (escaped value ++ ['"'])

/-- A quote and a backslash are written after a backslash, and all else as it is. -/
theorem escaped_cons (c : Char) (value : Text) :
    escaped (c :: value) =
      if c = '"' ∨ c = '\\' then '\\' :: c :: escaped value else c :: escaped value := by
  rw [escaped, List.flatMap_cons]
  split <;> rfl

/-- A value without double quotes and backslashes stays as it is. -/
theorem quoted_of_plain {value : Text} (h : ∀ c ∈ value, c ≠ '"' ∧ c ≠ '\\') :
    quoted value = '"' :: (value ++ ['"']) := by
  have hsame : escaped value = value := by
    induction value with
    | nil => rfl
    | cons c value ih =>
      obtain ⟨hq, hb⟩ := h c List.mem_cons_self
      rw [escaped_cons, if_neg (not_or.mpr ⟨hq, hb⟩),
        ih fun x hx => h x (List.mem_cons_of_mem c hx)]
  rw [quoted, hsame]

/-! ### To the end of the modifiers -/

/-- The modifiers and the rest make up the scanned text, and the rest begins with the space or the
line feed that ends the modifiers. -/
theorem scanFrom_eq_some {nest : Nat} {quote : Option Char} {t m r : Text}
    (h : scanFrom nest quote t = some (m, r)) :
    t = m ++ r ∧ ∃ c r', r = c :: r' ∧ (c = ' ' ∨ c = '\n') := by
  fun_induction scanFrom nest quote t generalizing m r with
  | case1 => simp at h
  | case2 => simp at h
  | case3 _ _ _ _ ih =>
    obtain ⟨⟨m', r'⟩, h', hr⟩ := Option.map_eq_some_iff.1 h
    simp only [scannedBefore, Prod.mk.injEq] at hr
    obtain ⟨ht, he⟩ := ih h'
    rw [← hr.1, ← hr.2, ht]
    exact ⟨rfl, he⟩
  | case5 nest c r' _ _ hc =>
    simp only [Option.some.injEq, Prod.mk.injEq] at h
    simp only [Bool.and_eq_true, Bool.or_eq_true, decide_eq_true_eq] at hc
    rw [← h.1, ← h.2]
    exact ⟨rfl, c, r', rfl, hc.1⟩
  | case4 | case6 | case7 | case8 | case9 =>
    rename_i ih
    obtain ⟨⟨m', r'⟩, h', hr⟩ := Option.map_eq_some_iff.1 h
    simp only [scannedBefore, Prod.mk.injEq] at hr
    obtain ⟨ht, he⟩ := ih h'
    rw [← hr.1, ← hr.2, ht]
    exact ⟨rfl, he⟩

/-- The scan passes over the text with `nest` brackets open, outside of quotes before and after. -/
def Passes (nest : Nat) (w : Text) : Prop :=
  ∀ r, scanFrom nest none (w ++ r) = (scanFrom nest none r).map (scannedBefore w)

private theorem map_scannedBefore (v w : Text) (o : Option (Text × Text)) :
    (o.map (scannedBefore w)).map (scannedBefore v) = o.map (scannedBefore (v ++ w)) := by
  cases o <;> simp [scannedBefore]

/-- A scanner that passes two texts passes both together. -/
theorem Passes.append {nest : Nat} {v w : Text} (hv : Passes nest v) (hw : Passes nest w) :
    Passes nest (v ++ w) := by
  intro r
  rw [List.append_assoc, hv, hw, map_scannedBefore]

/-- Being passed is a property of texts put together. -/
theorem additive_passes (nest : Nat) : Additive (Passes nest) := by
  refine ⟨?_, Passes.append⟩
  intro r
  cases hs : scanFrom nest none r <;> simp [hs, scannedBefore]

/-- The scan over a character that is no backslash. -/
theorem scanFrom_cons {nest : Nat} {quote : Option Char} {c : Char} {r : Text}
    (hc : c ≠ '\\') :
    scanFrom nest quote (c :: r) =
      match quote with
      | some q => (scanFrom nest (if c = q then none else some q) r).map (scannedBefore [c])
      | none =>
        if (c = ' ' || c = '\n') && nest = 0 then some ([], c :: r)
        else if Text.isQuote c && nest ≠ 0 then
          (scanFrom nest (some c) r).map (scannedBefore [c])
        else if isOpener c then (scanFrom (nest + 1) none r).map (scannedBefore [c])
        else if isCloser c then (scanFrom (nest - 1) none r).map (scannedBefore [c])
        else (scanFrom nest none r).map (scannedBefore [c]) := by
  rw [scanFrom.eq_def]
  split
  · next h => cases h
  · next h => simp_all
  · next h => simp_all
  · next h =>
    cases h
    rfl

/-- One more character before modifiers that do not depend on what follows them. -/
theorem scanFrom_congr_cons {nest nest' : Nat} {quote quote' : Option Char} {c d : Char}
    {t m r r' : Text}
    (hd : ∀ u, scanFrom nest quote (d :: u) = (scanFrom nest' quote' u).map (scannedBefore [d]))
    (h : (scanFrom nest' quote' t).map (scannedBefore [d]) = some (m, c :: r))
    (ih : ∀ {m}, scanFrom nest' quote' t = some (m, c :: r) →
      scanFrom nest' quote' (m ++ c :: r') = some (m, c :: r')) :
    scanFrom nest quote (m ++ c :: r') = some (m, c :: r') := by
  obtain ⟨⟨m', r''⟩, h', hr⟩ := Option.map_eq_some_iff.1 h
  simp only [scannedBefore, Prod.mk.injEq] at hr
  obtain ⟨rfl, rfl⟩ := hr
  rw [List.singleton_append, List.cons_append, hd, ih h']
  rfl

/-- The first character of a text that matches no pattern with a backslash. -/
theorem ne_backslash {d : Char} {t : Text} (h : d = '\\' → t = [] → False)
    (h' : ∀ c r, d = '\\' → t = c :: r → False) : d ≠ '\\' := by
  intro hd
  cases t with
  | nil => exact h hd rfl
  | cons c r => exact h' c r hd rfl

/-- What the modifiers are does not depend on what follows the character that ends them. -/
theorem scanFrom_congr {nest : Nat} {quote : Option Char} {t m r : Text} {c : Char}
    (h : scanFrom nest quote t = some (m, c :: r)) (r' : Text) :
    scanFrom nest quote (m ++ c :: r') = some (m, c :: r') := by
  fun_induction scanFrom nest quote t generalizing m with
  | case1 => simp at h
  | case2 => simp at h
  | case3 nest quote d t ih =>
    obtain ⟨⟨m', r''⟩, h', hr⟩ := Option.map_eq_some_iff.1 h
    simp only [scannedBefore, Prod.mk.injEq] at hr
    obtain ⟨rfl, rfl⟩ := hr
    change scanFrom nest quote ('\\' :: d :: (m' ++ c :: r')) = _
    rw [scanFrom, ih h']
    rfl
  | case4 nest d t h1 h2 q ih =>
    exact scanFrom_congr_cons (fun u => scanFrom_cons (ne_backslash h1 h2)) h ih
  | case5 nest d t h1 h2 hend =>
    simp only [Option.some.injEq, Prod.mk.injEq, List.cons.injEq] at h
    obtain ⟨rfl, rfl, -⟩ := h
    exact (scanFrom_cons (ne_backslash h1 h2)).trans (if_pos hend)
  | case6 nest d t h1 h2 hend hq ih =>
    refine scanFrom_congr_cons (fun u => (scanFrom_cons (ne_backslash h1 h2)).trans ?_) h ih
    dsimp only
    rw [if_neg hend, if_pos hq]
  | case7 nest d t h1 h2 hend hq ho ih =>
    refine scanFrom_congr_cons (fun u => (scanFrom_cons (ne_backslash h1 h2)).trans ?_) h ih
    dsimp only
    rw [if_neg hend, if_neg hq, if_pos ho]
  | case8 nest d t h1 h2 hend hq ho hc ih =>
    refine scanFrom_congr_cons (fun u => (scanFrom_cons (ne_backslash h1 h2)).trans ?_) h ih
    dsimp only
    rw [if_neg hend, if_neg hq, if_neg ho, if_pos hc]
  | case9 nest d t h1 h2 hend hq ho hc ih =>
    refine scanFrom_congr_cons (fun u => (scanFrom_cons (ne_backslash h1 h2)).trans ?_) h ih
    dsimp only
    rw [if_neg hend, if_neg hq, if_neg ho, if_neg hc]

/-- A character without a meaning of its own. -/
theorem passes_char {nest : Nat} {c : Char} (hb : c ≠ '\\')
    (hs : nest = 0 → c ≠ ' ' ∧ c ≠ '\n') (hq : Text.isQuote c = false)
    (ho : isOpener c = false) (hc : isCloser c = false) : Passes nest [c] := by
  intro r
  have he : ((c = ' ' || c = '\n') && nest = 0 : Bool) = false := by
    by_cases hn : nest = 0
    · simp [hs hn]
    · simp [hn]
  rw [List.singleton_append, scanFrom_cons hb]
  simp [he, hq, ho, hc]

/-- A scanner passes the characters of names. -/
theorem passes_word {nest : Nat} {w : Text} (h : ∀ c ∈ w, isNameChar c = true) :
    Passes nest w := by
  apply (additive_passes nest).chars
  intro c hm
  have hc := h c hm
  obtain ⟨hq, ho, hcl, -⟩ := isNameChar_plain hc
  apply passes_char (ne_of_test hc (by decide)) _ hq ho hcl
  intro _
  exact ⟨ne_of_test hc (by decide), ne_of_test hc (by decide)⟩

private theorem scanFrom_escaped {nest : Nat} (v r : Text) :
    scanFrom nest (some '"') (escaped v ++ '"' :: r) =
      (scanFrom nest none r).map (scannedBefore (escaped v ++ ['"'])) := by
  induction v with
  | nil =>
    rw [escaped, List.flatMap_nil, List.nil_append, scanFrom_cons (by decide)]
    simp
  | cons c v ih =>
    rw [escaped_cons]
    split
    · change scanFrom nest (some '"') ('\\' :: c :: (escaped v ++ '"' :: r)) = _
      rw [scanFrom, ih, map_scannedBefore]
      rfl
    · next hc =>
      obtain ⟨hq, hb⟩ := not_or.mp hc
      rw [List.cons_append, scanFrom_cons hb]
      simp only [if_neg hq]
      rw [ih, map_scannedBefore]
      rfl

/-- Inside brackets, a value between double quotes. -/
theorem passes_quoted {nest : Nat} (hn : nest ≠ 0) (v : Text) : Passes nest (quoted v) := by
  intro r
  have hq : Text.isQuote '"' = true := by decide
  have he : ('"' : Char) ≠ ' ' ∧ ('"' : Char) ≠ '\n' := by decide
  rw [quoted, List.cons_append, scanFrom_cons (by decide), List.append_assoc,
    List.singleton_append, scanFrom_escaped, map_scannedBefore]
  simp [he, hq, hn]

/-- A group in round brackets, from what can be passed over inside. -/
theorem passes_group {nest : Nat} {w : Text} (h : Passes (nest + 1) w) :
    Passes nest ('(' :: (w ++ [')'])) := by
  intro r
  have ho : isOpener '(' = true := by decide
  have hq : Text.isQuote '(' = false ∧ Text.isQuote ')' = false := by decide
  have hc : isCloser ')' = true ∧ isOpener ')' = false := by decide
  have he : ('(' : Char) ≠ ' ' ∧ ('(' : Char) ≠ '\n' := by decide
  have hclose : scanFrom (nest + 1) none (')' :: r) =
      (scanFrom nest none r).map (scannedBefore [')']) := by
    rw [scanFrom_cons (by decide)]
    simp [hq, hc]
  rw [List.cons_append, scanFrom_cons (by decide), List.append_assoc, List.singleton_append, h,
    hclose, map_scannedBefore, map_scannedBefore]
  simp [he, hq, ho]

/-- Modifiers that can be passed over end at the first space or line feed after them. -/
theorem scanModifiers_of_passes {w : Text} (h : Passes 0 w) {c : Char} (hc : c = ' ' ∨ c = '\n')
    (r : Text) : scanModifiers (w ++ c :: r) = some (w, c :: r) := by
  have hb : c ≠ '\\' := by rcases hc with rfl | rfl <;> decide
  rw [scanModifiers, h, scanFrom_cons hb]
  rcases hc with rfl | rfl <;> simp [scannedBefore]

/-! ### From part to part -/

/-- A part that is not empty is added to the others. -/
theorem closePart_of_ne_nil {current : Text} (h : current ≠ []) (others : List Text) :
    closePart current others = current :: others := by
  rw [closePart, List.isEmpty_eq_false_iff.mpr h, if_neg Bool.false_ne_true]

/-- Closing a part loses nothing of the text. -/
theorem flatten_closePart (current : Text) (others : List Text) :
    (closePart current others).flatten = current ++ others.flatten := by
  cases current <;> rfl

/-- The cut into parts takes the text into the part that it is in, with `depth` groups open. -/
def Keeps (depth : Nat) (w : Text) : Prop :=
  ∀ current r, splitModifiersFrom depth .outside current (w ++ r) =
    splitModifiersFrom depth .outside (current ++ w) r

private theorem Keeps.append {depth : Nat} {v w : Text} (hv : Keeps depth v) (hw : Keeps depth w) :
    Keeps depth (v ++ w) := by
  intro current r
  rw [List.append_assoc, hv, hw, List.append_assoc]

/-- Leaving the splitter as it is, is a property of texts put together. -/
theorem additive_keeps (depth : Nat) : Additive (Keeps depth) := by
  refine ⟨?_, Keeps.append⟩
  intro current r
  rw [List.nil_append, List.append_nil]

/-- A character without a meaning leaves the splitter as it is. -/
theorem keeps_char {depth : Nat} {c : Char} (hq : Text.isQuote c = false)
    (hb : c ≠ '(' ∧ c ≠ ')') (hm : depth = 0 → c ≠ '.' ∧ c ≠ '#') : Keeps depth [c] := by
  intro current r
  have he : ((c = '.' || c = '#' || c = '(') && depth = 0 : Bool) = false := by
    by_cases hd : depth = 0
    · simp [hm hd, hb]
    · simp [hd]
  rw [List.singleton_append, splitModifiersFrom]
  simp only [hq, he, Bool.false_eq_true, if_false]
  rw [if_neg hb.1, if_neg hb.2]

/-- So do the characters of names. -/
theorem keeps_word {depth : Nat} {w : Text} (h : ∀ c ∈ w, isNameChar c = true) :
    Keeps depth w := by
  apply (additive_keeps depth).chars
  intro c hm
  have hc := h c hm
  apply keeps_char (isNameChar_plain hc).1
  · exact ⟨ne_of_test hc (by decide), ne_of_test hc (by decide)⟩
  · intro _
    exact ⟨ne_of_test hc (by decide), ne_of_test hc (by decide)⟩

private theorem splitModifiersFrom_escaped {depth : Nat} (v current r : Text) :
    splitModifiersFrom depth (.inside '"' false) current (escaped v ++ '"' :: r) =
      splitModifiersFrom depth .outside (current ++ (escaped v ++ ['"'])) r := by
  induction v generalizing current with
  | nil => simp [escaped, splitModifiersFrom, Quoting.step]
  | cons c v ih =>
    rw [escaped_cons]
    split
    · have hpair : splitModifiersFrom depth (.inside '"' false) current
          ('\\' :: c :: (escaped v ++ '"' :: r)) =
            splitModifiersFrom depth (.inside '"' false) (current ++ ['\\'] ++ [c])
              (escaped v ++ '"' :: r) := by
        rw [splitModifiersFrom]
        exact splitModifiersFrom.eq_def ..
      rw [List.cons_append, List.cons_append, hpair, ih]
      simp
    · next hc =>
      obtain ⟨hq, hb⟩ := not_or.mp hc
      rw [List.cons_append, splitModifiersFrom]
      simp only [Quoting.step, hq, hb, Bool.false_eq_true, if_false]
      rw [ih]
      simp

/-- So does a quoted value, whatever is in it. -/
theorem keeps_quoted {depth : Nat} (v : Text) : Keeps depth (quoted v) := by
  intro current r
  have hq : Text.isQuote '"' = true := by decide
  rw [quoted, List.cons_append, splitModifiersFrom, List.append_assoc, List.singleton_append]
  simp only [hq, if_true]
  rw [splitModifiersFrom_escaped]
  simp

/-- The text begins a part wherever it stands outside of groups, and it stays in that part. -/
def IsPart (p : Text) : Prop :=
  p ≠ [] ∧ ∀ current r, splitModifiersFrom 0 .outside current (p ++ r) =
    closePart current (splitModifiersFrom 0 .outside p r)

/-- A mark and what follows it, up to the next mark, are a part. -/
theorem isPart_mark {c : Char} (hc : c = '.' ∨ c = '#') {w : Text} (hw : Keeps 0 w) :
    IsPart (c :: w) := by
  refine ⟨List.cons_ne_nil c w, ?_⟩
  intro current r
  have hopen : splitModifiersFrom 0 .outside current (c :: (w ++ r)) =
      closePart current (splitModifiersFrom 0 .outside [c] (w ++ r)) := by
    rw [splitModifiersFrom]
    rcases hc with rfl | rfl <;> rfl
  rw [List.cons_append, hopen, hw]
  rfl

/-- A group in brackets is a part. -/
theorem isPart_group {w : Text} (hw : Keeps 1 w) : IsPart ('(' :: (w ++ [')'])) := by
  refine ⟨List.cons_ne_nil _ _, ?_⟩
  intro current r
  have hopen : splitModifiersFrom 0 .outside current ('(' :: (w ++ ')' :: r)) =
      closePart current (splitModifiersFrom 1 .outside ['('] (w ++ ')' :: r)) := by
    rw [splitModifiersFrom]
    rfl
  have hclose : splitModifiersFrom 1 .outside ('(' :: w) (')' :: r) =
      splitModifiersFrom 0 .outside ('(' :: w ++ [')']) r := by
    rw [splitModifiersFrom]
    rfl
  rw [List.cons_append, List.append_assoc, List.singleton_append, hopen, hw, List.singleton_append,
    hclose]
  rfl

/-- Modifiers are cut into the parts that they were put together from. -/
theorem splitModifiers_flatten {parts : List Text} (h : ∀ p ∈ parts, IsPart p) :
    splitModifiers parts.flatten = parts := by
  have hall (current : Text) :
      splitModifiersFrom 0 .outside current parts.flatten = closePart current parts := by
    induction parts generalizing current with
    | nil => rfl
    | cons p parts ih =>
      obtain ⟨hne, hp⟩ := h p List.mem_cons_self
      rw [List.flatten_cons, hp, ih fun q hq => h q (List.mem_cons_of_mem p hq),
        closePart_of_ne_nil hne]
  exact hall []

/-! ### From pair to pair -/

/-- The cut into pairs takes the text into the pair that it is in. -/
def KeepsPair (p : Text) : Prop :=
  ∀ current r, splitPairsFrom none current (p ++ r) = splitPairsFrom none (current ++ p) r

private theorem KeepsPair.append {v w : Text} (hv : KeepsPair v) (hw : KeepsPair w) :
    KeepsPair (v ++ w) := by
  intro current r
  rw [List.append_assoc, hv, hw, List.append_assoc]

/-- Leaving the splitter of pairs as it is, is a property of texts put together. -/
theorem additive_keepsPair : Additive KeepsPair := by
  refine ⟨?_, KeepsPair.append⟩
  intro current r
  rw [List.nil_append, List.append_nil]

/-- A character that is neither quote nor divider leaves the splitter of pairs as it is. -/
theorem keepsPair_char {c : Char} (hq : Text.isQuote c = false) (hd : isPairDivider c = false) :
    KeepsPair [c] := by
  intro current r
  rw [List.singleton_append, splitPairsFrom]
  simp [hq, hd]

/-- So do the characters of names. -/
theorem keepsPair_word {w : Text} (h : ∀ c ∈ w, isNameChar c = true) : KeepsPair w := by
  apply additive_keepsPair.chars
  intro c hm
  obtain ⟨hq, -, -, hd⟩ := isNameChar_plain (h c hm)
  exact keepsPair_char hq hd

private theorem splitPairsFrom_quoted {q : Char} {v : Text} (hv : ∀ c ∈ v, c ≠ q)
    (current r : Text) :
    splitPairsFrom (some q) current (v ++ q :: r) =
      splitPairsFrom none (current ++ (v ++ [q])) r := by
  induction v generalizing current with
  | nil => simp [splitPairsFrom]
  | cons c v ih =>
    have hc := hv c List.mem_cons_self
    rw [List.cons_append, splitPairsFrom]
    simp only [if_neg hc]
    rw [ih fun x hx => hv x (List.mem_cons_of_mem c hx)]
    simp

/-- So does a text in quotes that has no quote inside. -/
theorem keepsPair_quoted {v : Text} (hv : ∀ c ∈ v, c ≠ '"') :
    KeepsPair ('"' :: (v ++ ['"'])) := by
  intro current r
  have hq : Text.isQuote '"' = true := by decide
  rw [List.cons_append, splitPairsFrom, List.append_assoc, List.singleton_append]
  simp only [hq, if_true]
  rw [splitPairsFrom_quoted hv]
  simp

/-- A group of attributes is cut into the pairs that it was put together from. -/
theorem splitPairs_join {pairs : List Text} (h : ∀ p ∈ pairs, p ≠ [] ∧ KeepsPair p) :
    splitPairs (Text.join ", " pairs) = pairs := by
  induction pairs with
  | nil => rfl
  | cons p pairs ih =>
    obtain ⟨hne, hp⟩ := h p List.mem_cons_self
    cases pairs with
    | nil =>
      have := hp [] []
      rw [List.append_nil, List.nil_append] at this
      rw [Text.join, splitPairs, this, splitPairsFrom, closePart_of_ne_nil hne]
    | cons q pairs =>
      have hrest := ih fun x hx => h x (List.mem_cons_of_mem p hx)
      have hjoin : Text.join ", " (p :: q :: pairs) =
          p ++ (',' :: ' ' :: Text.join ", " (q :: pairs)) := by
        rw [Text.join, List.append_assoc]
        rfl
      rw [hjoin, splitPairs, hp, List.nil_append]
      have hcut : splitPairsFrom none p (',' :: ' ' :: Text.join ", " (q :: pairs)) =
          closePart p (splitPairs (Text.join ", " (q :: pairs))) := by
        rw [splitPairsFrom, splitPairsFrom]
        rfl
      rw [hcut, hrest, closePart_of_ne_nil hne]

end OutlinePage.Outline
