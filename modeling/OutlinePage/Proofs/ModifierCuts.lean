import OutlinePage.Proofs.Modifiers

/-!
# Where modifiers are cut

Modifiers are cut at the marks `.`, `#` and `(` that stand outside of quoted values and of groups.
Which characters are quoted and how many groups are open is said for each position of the text by
itself. The scanner is then followed from position to position: before each character it knows of
the quotes and of the groups what holds at that position, and so it cuts there and nowhere else.
-/

namespace OutlinePage.Outline

/-! ### Positions -/

/-- A character that begins a part. -/
def isMark (c : Char) : Bool := c == '.' || c == '#' || c == '('

/-- Right before `i` stands a backslash of the value that is quoted from `o` on, and no other
backslash protects that one. -/
def IsProtected (m : Text) (o : Nat) : Nat → Prop
  | 0 => False
  | i + 1 => o < i ∧ m[i]? = some '\\' ∧ ¬IsProtected m o i

/-- A quote stands at `o`, and no quote of the same kind between `o` and `p` closes it. -/
def Spans (m : Text) (o p : Nat) : Prop :=
  m[o]?.any Text.isQuote = true ∧ ∀ i < p, o < i → m[i]? = m[o]? → IsProtected m o i

/-- The character at `p` is part of a quoted value or closes it: a quote before it, which is not
quoted itself, is still open. -/
def IsQuoted (m : Text) (p : Nat) : Prop :=
  ∃ o, ∃ _ : o < p, Spans m o p ∧ ¬IsQuoted m o
termination_by p

instance decidableIsProtected (m : Text) (o : Nat) : (i : Nat) → Decidable (IsProtected m o i)
  | 0 => inferInstanceAs (Decidable False)
  | i + 1 =>
    have := decidableIsProtected m o i
    inferInstanceAs (Decidable (o < i ∧ m[i]? = some '\\' ∧ ¬IsProtected m o i))

instance (m : Text) (o p : Nat) : Decidable (Spans m o p) :=
  inferInstanceAs (Decidable (_ ∧ _))

instance decidableIsQuoted (m : Text) (p : Nat) : Decidable (IsQuoted m p) :=
  have earlier (o : Nat) (_ : o < p) : Decidable (Spans m o p ∧ ¬IsQuoted m o) :=
    have := decidableIsQuoted m o
    inferInstance
  @decidable_of_iff _ _ (by rw [IsQuoted]) (@Nat.decidableExistsLT' p _ earlier)
termination_by p

/-- The number of groups that are open at `p`. Brackets inside of quotes do not count, and a closing
bracket without an opening one closes nothing. -/
def groupsOpen (m : Text) : Nat → Nat
  | 0 => 0
  | p + 1 =>
    if IsQuoted m p then groupsOpen m p
    else if m[p]? = some '(' then groupsOpen m p + 1
    else if m[p]? = some ')' then groupsOpen m p - 1
    else groupsOpen m p

/-- A mark at `p` that neither quotes nor a group protect. -/
structure IsCut (m : Text) (p : Nat) : Prop where
  mark : m[p]?.any isMark = true
  unquoted : ¬IsQuoted m p
  ungrouped : groupsOpen m p = 0

/-- A part other than the first begins at `p` of the text that the parts make up. -/
def BeginsLater (parts : List Text) (p : Nat) : Prop :=
  ∃ before after, parts = before ++ after ∧ before ≠ [] ∧ after ≠ [] ∧ before.flatten.length = p

/-! ### Quoted values -/

/-- The value that is open at `p` begins with the quote at `o`. -/
structure OpenFrom (m : Text) (o p : Nat) : Prop where
  before : o < p
  spans : Spans m o p
  free : ¬IsQuoted m o

section Quoted

variable {m : Text} {o o' p : Nat}

private theorem isQuoted_iff : IsQuoted m p ↔ ∃ o, OpenFrom m o p := by
  rw [IsQuoted]
  constructor
  · rintro ⟨o, before, spans, free⟩
    exact ⟨o, before, spans, free⟩
  · rintro ⟨o, before, spans, free⟩
    exact ⟨o, before, spans, free⟩

private theorem OpenFrom.isQuoted (h : OpenFrom m o p) : IsQuoted m p := isQuoted_iff.mpr ⟨o, h⟩

private theorem OpenFrom.mono {p' : Nat} (h : OpenFrom m o p) (ho : o < p') (hp : p' ≤ p) :
    OpenFrom m o p' :=
  ⟨ho, ⟨h.spans.1, fun i hi => h.spans.2 i (Nat.lt_of_lt_of_le hi hp)⟩, h.free⟩

/-- At most one quoted value is open at a position. -/
theorem OpenFrom.unique (h : OpenFrom m o p) (h' : OpenFrom m o' p) : o = o' := by
  -- The later of two openings would be quoted by the earlier one.
  rcases Nat.lt_trichotomy o o' with hlt | heq | hgt
  · exact absurd (h.mono hlt (Nat.le_of_lt h'.before)).isQuoted h'.free
  · exact heq
  · exact absurd (h'.mono hgt (Nat.le_of_lt h.before)).isQuoted h.free

/-- A value that is open after a character was open before it or begins with it. -/
theorem OpenFrom.of_succ (h : OpenFrom m o (p + 1)) : OpenFrom m o p ∨ o = p :=
  (Nat.lt_succ_iff_lt_or_eq.mp h.before).imp_left fun hlt => h.mono hlt (Nat.le_succ p)

/-- A value stays open if the next character does not close it. -/
theorem OpenFrom.succ (h : OpenFrom m o p) (hp : m[p]? = m[o]? → IsProtected m o p) :
    OpenFrom m o (p + 1) := by
  refine ⟨Nat.lt_succ_of_lt h.before, ⟨h.spans.1, fun i hi hoi hsame => ?_⟩, h.free⟩
  rcases Nat.lt_succ_iff_lt_or_eq.mp hi with hlt | rfl
  · exact h.spans.2 i hlt hoi hsame
  · exact hp hsame

/-- Outside of quotes, a quote begins a quoted value. -/
theorem openFrom_succ_self (hfree : ¬IsQuoted m p) (hquote : m[p]?.any Text.isQuote = true) :
    OpenFrom m p (p + 1) := by
  refine ⟨Nat.lt_succ_self p, ⟨hquote, fun i hi hpi => ?_⟩, hfree⟩
  exact absurd hi (Nat.not_lt_of_le hpi)

/-- Outside of quotes, nothing but a quote begins a quoted value. -/
theorem not_isQuoted_succ_of_plain (hfree : ¬IsQuoted m p)
    (hplain : m[p]?.any Text.isQuote = false) : ¬IsQuoted m (p + 1) := by
  intro hquoted
  obtain ⟨o, hopen⟩ := isQuoted_iff.mp hquoted
  rcases hopen.of_succ with hopen | rfl
  · exact hfree hopen.isQuoted
  · exact Bool.false_ne_true (hplain.symm.trans hopen.spans.1)

/-- After the quote that closes a value nothing is quoted. -/
theorem OpenFrom.not_isQuoted_succ (h : OpenFrom m o p) (hsame : m[p]? = m[o]?)
    (hclose : ¬IsProtected m o p) : ¬IsQuoted m (p + 1) := by
  intro hquoted
  obtain ⟨o', hopen⟩ := isQuoted_iff.mp hquoted
  rcases hopen.of_succ with hopen' | rfl
  · obtain rfl := h.unique hopen'
    exact hclose (hopen.spans.2 p (Nat.lt_succ_self p) h.before hsame)
  · exact hopen.free h.isQuoted

end Quoted

/-! ### The scanner, character by character -/

/-- Where the scanner is with respect to quotes after one more character. -/
def Quoting.after (c : Char) : Quoting → Quoting
  | .outside => if Text.isQuote c then .inside c false else .outside
  | .inside q escaped => Quoting.step c q escaped

/-- How many groups are open after one more character. -/
def Quoting.depthAfter (c : Char) (depth : Nat) : Quoting → Nat
  | .outside => if c = '(' then depth + 1 else if c = ')' then depth - 1 else depth
  | .inside _ _ => depth

/-- The scanner goes on with the part that it is in, unless it is at a mark outside of quotes and
groups. -/
theorem splitModifiersFrom_cons (depth : Nat) (quoting : Quoting) (current : Text) (c : Char)
    (r : Text) :
    splitModifiersFrom depth quoting current (c :: r) =
      if isMark c = true ∧ quoting = .outside ∧ depth = 0 then
        closePart current
          (splitModifiersFrom (quoting.depthAfter c depth) (quoting.after c) [c] r)
      else
        splitModifiersFrom (quoting.depthAfter c depth) (quoting.after c) (current ++ [c]) r := by
  cases quoting with
  | inside q escaped =>
    rw [splitModifiersFrom]
    simp [Quoting.after, Quoting.depthAfter]
  | outside =>
    rw [splitModifiersFrom]
    cases hq : Text.isQuote c with
    | true =>
      have hc : c = '"' ∨ c = '\'' := by simpa [Text.isQuote] using hq
      rcases hc with rfl | rfl <;> simp [Quoting.after, Quoting.depthAfter, isMark, Text.isQuote]
    | false => simp [Quoting.after, Quoting.depthAfter, isMark, hq]

/-! ### What the scanner knows at a position -/

/-- What holds of the quotes at a position, for each state of the scanner. -/
inductive Quoting.StandsAt (m : Text) (p : Nat) : Quoting → Prop
  | outside (free : ¬IsQuoted m p) : StandsAt m p .outside
  | inside {o : Nat} {q : Char} {escaped : Bool} (opened : OpenFrom m o p)
      (quote : m[o]? = some q) (escape : escaped = true ↔ IsProtected m o p) :
      StandsAt m p (.inside q escaped)

section StandsAt

variable {m : Text} {p : Nat} {quoting : Quoting} {c : Char}

private theorem Quoting.standsAt_zero (m : Text) : Quoting.StandsAt m 0 .outside := by
  refine .outside fun h => ?_
  obtain ⟨o, hopen⟩ := isQuoted_iff.mp h
  exact Nat.not_lt_zero o hopen.before

private theorem Quoting.StandsAt.eq_outside_iff (h : quoting.StandsAt m p) :
    quoting = .outside ↔ ¬IsQuoted m p := by
  cases h with
  | outside free => exact ⟨fun _ => free, fun _ => rfl⟩
  | inside opened _ _ =>
    constructor
    · intro heq
      cases heq
    · intro hnot
      exact absurd opened.isQuoted hnot

/-- One more character inside of quotes. -/
theorem Quoting.standsAt_step {o : Nat} {q : Char} {escaped : Bool}
    (opened : OpenFrom m o p) (quote : m[o]? = some q)
    (escape : escaped = true ↔ IsProtected m o p) (hc : m[p]? = some c) :
    (Quoting.step c q escaped).StandsAt m (p + 1) := by
  have hq : Text.isQuote q = true := by simpa [quote] using opened.spans.1
  have hprotected : IsProtected m o (p + 1) ↔ c = '\\' ∧ ¬IsProtected m o p := by
    simp [IsProtected, opened.before, hc]
  have hsame : m[p]? = m[o]? ↔ c = q := by rw [hc, quote, Option.some.injEq]
  have hstays (next : Bool) (hopen : c = q → IsProtected m o p)
      (hnext : next = true ↔ IsProtected m o (p + 1)) :
      (Quoting.inside q next).StandsAt m (p + 1) :=
    .inside (opened.succ (hopen ∘ hsame.mp)) quote hnext
  rw [Quoting.step]
  split
  · next he =>
    have hp := escape.mp he
    exact hstays false (fun _ => hp) (by simp [hprotected, hp])
  · next he =>
    have hp : ¬IsProtected m o p := fun h => he (escape.mpr h)
    split
    · next hb =>
      subst hb
      refine hstays true ?_ (by simp [hprotected, hp])
      -- A backslash is not a quote.
      rintro rfl
      cases hq
    · next hb =>
      split
      · next hclose => exact .outside (opened.not_isQuoted_succ (hsame.mpr hclose) hp)
      · next hother => exact hstays false (fun h => absurd h hother) (by simp [hprotected, hb])

/-- One character takes the scanner's state at a position to its state at the next one. -/
theorem Quoting.StandsAt.after (h : quoting.StandsAt m p) (hc : m[p]? = some c) :
    (quoting.after c).StandsAt m (p + 1) := by
  cases h with
  | inside opened quote escape => exact Quoting.standsAt_step opened quote escape hc
  | outside free =>
    have hany : m[p]?.any Text.isQuote = Text.isQuote c := by rw [hc, Option.any_some]
    rw [Quoting.after]
    split
    · next hq =>
      refine .inside (openFrom_succ_self free (hany.trans hq)) hc ?_
      simp [IsProtected]
    · next hq =>
      exact .outside (not_isQuoted_succ_of_plain free (hany.trans ((Bool.not_eq_true _).mp hq)))

private theorem Quoting.StandsAt.groupsOpen_succ (h : quoting.StandsAt m p) (hc : m[p]? = some c) :
    groupsOpen m (p + 1) = quoting.depthAfter c (groupsOpen m p) := by
  have hquoted := h.eq_outside_iff
  cases quoting with
  | outside => simp [groupsOpen, Quoting.depthAfter, hc, hquoted.mp rfl]
  | inside q escaped =>
    have : IsQuoted m p := Decidable.not_not.mp (hquoted.not.mp (by simp))
    simp [groupsOpen, Quoting.depthAfter, this]

/-- What the scanner knows is enough to tell where to cut. -/
theorem Quoting.StandsAt.isCut_iff (h : quoting.StandsAt m p) (hc : m[p]? = some c) :
    IsCut m p ↔ isMark c = true ∧ quoting = .outside ∧ groupsOpen m p = 0 := by
  have hmark : m[p]?.any isMark = isMark c := by rw [hc, Option.any_some]
  constructor
  · rintro ⟨hm, hfree, hdepth⟩
    exact ⟨hmark ▸ hm, h.eq_outside_iff.mpr hfree, hdepth⟩
  · rintro ⟨hm, hout, hdepth⟩
    exact ⟨hmark ▸ hm, h.eq_outside_iff.mp hout, hdepth⟩

end StandsAt

/-! ### Parts -/

private theorem not_beginsLater_singleton (part : Text) (p : Nat) : ¬BeginsLater [part] p := by
  rintro ⟨before, after, heq, hbefore, hafter, -⟩
  have hlength := congrArg List.length heq
  have := List.length_pos_iff.mpr hbefore
  have := List.length_pos_iff.mpr hafter
  simp only [List.length_singleton, List.length_append] at hlength
  omega

/-- The second part begins where the first one ends, and the others follow. -/
theorem beginsLater_cons {part : Text} {parts : List Text} (hne : parts ≠ []) {p : Nat} :
    BeginsLater (part :: parts) p ↔
      p = part.length ∨ ∃ p', BeginsLater parts p' ∧ p = part.length + p' := by
  constructor
  · rintro ⟨before, after, heq, hbefore, hafter, rfl⟩
    obtain ⟨first, before, rfl⟩ := List.exists_cons_of_ne_nil hbefore
    obtain ⟨rfl, rfl⟩ := List.cons.inj heq
    cases before with
    | nil => exact .inl (by simp)
    | cons second before =>
      refine .inr ⟨_, ⟨second :: before, after, rfl, List.cons_ne_nil _ _, hafter, rfl⟩, ?_⟩
      rw [List.flatten_cons, List.length_append]
  · rintro (rfl | ⟨p', ⟨before, after, rfl, -, hafter, rfl⟩, rfl⟩)
    · exact ⟨[part], parts, rfl, List.cons_ne_nil _ _, hne, by simp⟩
    · exact ⟨part :: before, after, rfl, List.cons_ne_nil _ _, hafter, by simp⟩

private theorem nil_notMem_closePart (current : Text) {others : List Text} (h : [] ∉ others) :
    [] ∉ closePart current others := by
  cases current with
  | nil => exact h
  | cons c current => exact fun hm => h (List.mem_of_ne_of_mem (List.cons_ne_nil c current).symm hm)

/-- Nothing is lost between the parts. -/
theorem flatten_splitModifiersFrom (depth : Nat) (quoting : Quoting) (current rest : Text) :
    (splitModifiersFrom depth quoting current rest).flatten = current ++ rest := by
  induction rest generalizing depth quoting current with
  | nil => rw [splitModifiersFrom, flatten_closePart, List.flatten_nil]
  | cons c r ih =>
    rw [splitModifiersFrom_cons]
    split
    · rw [flatten_closePart, ih, List.singleton_append]
    · rw [ih, List.append_assoc, List.singleton_append]

private theorem nil_notMem_splitModifiersFrom (depth : Nat) (quoting : Quoting)
    (current rest : Text) :
    [] ∉ splitModifiersFrom depth quoting current rest := by
  induction rest generalizing depth quoting current with
  | nil =>
    rw [splitModifiersFrom]
    exact nil_notMem_closePart current List.not_mem_nil
  | cons c r ih =>
    rw [splitModifiersFrom_cons]
    split
    · exact nil_notMem_closePart current (ih _ _ _)
    · exact ih _ _ _

private theorem splitModifiersFrom_ne_nil (depth : Nat) (quoting : Quoting) {current : Text}
    (hne : current ≠ []) (rest : Text) : splitModifiersFrom depth quoting current rest ≠ [] := by
  intro h
  have hflat := flatten_splitModifiersFrom depth quoting current rest
  rw [h, List.flatten_nil] at hflat
  exact hne (List.append_eq_nil_iff.mp hflat.symm).1

/-- From a position on, with the part read so far behind it, the scanner cuts where it should. -/
theorem beginsLater_splitModifiersFrom {m rest current : Text} {p start : Nat} {quoting : Quoting}
    (hstate : quoting.StandsAt m p) (hrest : m.drop p = rest) (hne : current ≠ [])
    (hstart : start + current.length = p) (k : Nat) :
    BeginsLater (splitModifiersFrom (groupsOpen m p) quoting current rest) k ↔
      current.length ≤ k ∧ IsCut m (start + k) := by
  -- The induction is on the rest, with the state at every position that it is reached from.
  induction rest generalizing p quoting current start k with
  | nil =>
    rw [splitModifiersFrom, closePart_of_ne_nil hne]
    refine iff_of_false (not_beginsLater_singleton current k) ?_
    rintro ⟨hk, hcut⟩
    have hend : m[start + k]? = none := by
      rw [List.getElem?_eq_none_iff]
      have := List.drop_eq_nil_iff.mp hrest
      omega
    have := hcut.mark
    rw [hend] at this
    cases this
  | cons c r ih =>
    have hc : m[p]? = some c := by
      rw [← Nat.add_zero p, ← List.getElem?_drop, hrest]
      rfl
    have hnext : m.drop (p + 1) = r := by
      rw [← List.drop_drop, hrest]
      rfl
    have hcut := hstate.isCut_iff hc
    rw [splitModifiersFrom_cons, ← hstate.groupsOpen_succ hc]
    split
    · next hhere =>
      have hbegin := ih (hstate.after hc) hnext (List.cons_ne_nil c [])
        (show p + [c].length = p + 1 from rfl)
      rw [closePart_of_ne_nil hne,
        beginsLater_cons (splitModifiersFrom_ne_nil _ _ (List.cons_ne_nil c []) r)]
      constructor
      · rintro (rfl | ⟨k', hk', rfl⟩)
        · exact ⟨Nat.le_refl _, hstart ▸ hcut.mpr hhere⟩
        · obtain ⟨-, hk'⟩ := (hbegin k').mp hk'
          refine ⟨Nat.le_add_right _ _, ?_⟩
          rwa [← Nat.add_assoc, hstart]
      · rintro ⟨hk, hcutk⟩
        rcases Nat.eq_or_lt_of_le hk with heq | hlt
        · exact .inl heq.symm
        · refine .inr ⟨k - current.length, (hbegin _).mpr ⟨?_, ?_⟩, by omega⟩
          · rw [List.length_singleton]
            omega
          · rwa [show p + (k - current.length) = start + k by omega]
    · next hhere =>
      have hread : start + (current ++ [c]).length = p + 1 := by
        rw [List.length_append, List.length_singleton, ← Nat.add_assoc, hstart]
      rw [ih (hstate.after hc) hnext (List.append_ne_nil_of_right_ne_nil _ (List.cons_ne_nil c []))
        hread, List.length_append, List.length_singleton]
      refine and_congr_left fun hcutk => ⟨Nat.le_of_succ_le, fun hk => ?_⟩
      -- There is no cut right here, so the next one comes later.
      refine Nat.lt_of_le_of_ne hk ?_
      rintro rfl
      exact hhere (hcut.mp (hstart ▸ hcutk))

/-- The first character begins the first part, whatever it is. -/
theorem splitModifiers_cons (c : Char) (r : Text) :
    splitModifiers (c :: r) =
      splitModifiersFrom (groupsOpen (c :: r) 1) (Quoting.outside.after c) [c] r := by
  have hdepth := (Quoting.standsAt_zero (c :: r)).groupsOpen_succ rfl
  rw [splitModifiers, splitModifiersFrom_cons, hdepth]
  split <;> rfl

/-- Modifiers are cut exactly at the unprotected marks, and nothing is lost: no part is empty, the
parts make up the text, and a part other than the first begins where a mark stands, after the
beginning, outside of quotes and groups. -/
theorem modifiers_cut_at_marks (m : Text) :
    [] ∉ splitModifiers m ∧ (splitModifiers m).flatten = m ∧
      ∀ p, BeginsLater (splitModifiers m) p ↔ 0 < p ∧ IsCut m p := by
  refine ⟨nil_notMem_splitModifiersFrom _ _ _ _, flatten_splitModifiersFrom _ _ _ _, fun p => ?_⟩
  cases m with
  | nil =>
    refine iff_of_false ?_ fun h => Bool.false_ne_true h.2.mark
    rintro ⟨before, after, heq, hbefore, -⟩
    exact hbefore (List.append_eq_nil_iff.mp heq.symm).1
  | cons c r =>
    have hstate := (Quoting.standsAt_zero (c :: r)).after (c := c) rfl
    have hbegin := beginsLater_splitModifiersFrom hstate (show (c :: r).drop 1 = r from rfl)
      (List.cons_ne_nil c []) (show 0 + [c].length = 1 from rfl) p
    rw [Nat.zero_add p] at hbegin
    rw [splitModifiers_cons]
    exact hbegin

/-- The bracket at the beginning closes nothing, and the quote that is never closed protects what
follows. -/
example : splitModifiers ").a'#(b" = [")".toList, ".a'#(b".toList] := by decide

end OutlinePage.Outline
