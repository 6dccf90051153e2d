import OutlinePage.Text.Quoted

/-!
# Modifiers

What stands right after a tag's name: classes, an id and groups of attributes, as in
`#main.big(title="a.b", lang=en)`. Three scanners read it: one finds its end in the line, one cuts
it into its parts, and one cuts a group of attributes into pairs.
-/

namespace OutlinePage.Outline

/-- A bracket that opens a nest. -/
def isOpener (c : Char) : Bool := c == '(' || c == '[' || c == '{'

/-- A bracket that closes a nest. -/
def isCloser (c : Char) : Bool := c == ')' || c == ']' || c == '}'

/-- Puts a piece in front of what was scanned. -/
def scannedBefore (piece : Text) (scanned : Text × Text) : Text × Text :=
  (piece ++ scanned.1, scanned.2)

/-- Scans modifiers up to the space or line feed that ends them, with `nest` brackets open and
perhaps inside a quoted value. Quotes count inside brackets only, a backslash protects the next
character, and without an end there is no result. Returns the modifiers and the rest. -/
def scanFrom (nest : Nat) (quote : Option Char) : Text → Option (Text × Text)
  | [] => none
  | ['\\'] => none
  | '\\' :: c :: r => (scanFrom nest quote r).map (scannedBefore ['\\', c])
  | c :: r =>
    match quote with
    | some q => (scanFrom nest (if c = q then none else some q) r).map (scannedBefore [c])
    | none =>
      if (c = ' ' || c = '\n') && nest = 0 then some ([], c :: r)
      else if Text.isQuote c && nest ≠ 0 then
        (scanFrom nest (some c) r).map (scannedBefore [c])
      else if isOpener c then (scanFrom (nest + 1) none r).map (scannedBefore [c])
      else if isCloser c then (scanFrom (nest - 1) none r).map (scannedBefore [c])
      else (scanFrom nest none r).map (scannedBefore [c])

/-- Scans the modifiers at the beginning of a text. -/
def scanModifiers (t : Text) : Option (Text × Text) := scanFrom 0 none t

/-- The rest after modifiers is no longer than the text. -/
theorem scanFrom_rest_le {nest : Nat} {quote : Option Char} {t m r : Text}
    (h : scanFrom nest quote t = some (m, r)) : r.length ≤ t.length := by
  fun_induction scanFrom nest quote t generalizing m r with
  | case1 => simp at h
  | case2 => simp at h
  | case3 _ _ _ _ ih =>
    obtain ⟨⟨m', r'⟩, h', hr⟩ := Option.map_eq_some_iff.1 h
    simp only [scannedBefore, Prod.mk.injEq] at hr
    have := ih h'
    simp only [← hr.2, List.length_cons]
    omega
  | case5 =>
    simp only [Option.some.injEq, Prod.mk.injEq] at h
    simp [← h.2]
  | case4 | case6 | case7 | case8 | case9 =>
    rename_i ih
    obtain ⟨⟨m', r'⟩, h', hr⟩ := Option.map_eq_some_iff.1 h
    simp only [scannedBefore, Prod.mk.injEq] at hr
    have := ih h'
    simp only [← hr.2, List.length_cons]
    omega

/-- Where a scanner is with respect to quoted values. -/
inductive Quoting where
  /-- Outside of quotes. -/
  | outside
  /-- Between quotes of the given kind, perhaps right after a backslash. -/
  | inside (quote : Char) (escaped : Bool)
deriving DecidableEq, Repr

/-- Reads one more character of a quoted value, in which a backslash protects the next one. -/
def Quoting.step (c quote : Char) (escaped : Bool) : Quoting :=
  if escaped then .inside quote false
  else if c = '\\' then .inside quote true
  else if c = quote then .outside
  else .inside quote false

/-- The part read so far, if there is one, in front of the others. -/
def closePart (current : Text) (others : List Text) : List Text :=
  if current.isEmpty then others else current :: others

/-- Cuts modifiers, with `depth` groups open and the part `current` read so far. A new part begins
at `.`, `#` or `(` outside of groups and quoted values. -/
def splitModifiersFrom (depth : Nat) (quoting : Quoting) (current : Text) : Text → List Text
  | [] => closePart current []
  | c :: r =>
    match quoting with
    | .inside q escaped =>
      splitModifiersFrom depth (Quoting.step c q escaped) (current ++ [c]) r
    | .outside =>
      if Text.isQuote c then splitModifiersFrom depth (.inside c false) (current ++ [c]) r
      else
        let deeper := if c = '(' then depth + 1 else if c = ')' then depth - 1 else depth
        if (c = '.' || c = '#' || c = '(') && depth = 0 then
          closePart current (splitModifiersFrom deeper .outside [c] r)
        else splitModifiersFrom deeper .outside (current ++ [c]) r

/-- The parts of modifiers: `#main.big(title="a.b")` has the parts `#main`, `.big` and
`(title="a.b")`. -/
def splitModifiers (modifiers : Text) : List Text := splitModifiersFrom 0 .outside [] modifiers

/-- Characters that divide the pairs of an attribute group. -/
def isPairDivider (c : Char) : Bool := c == ',' || c == ' ' || c == '\t' || c == '\n'

/-- Cuts an attribute group, perhaps inside a quoted value, with the pair `current` read so far. -/
def splitPairsFrom (quote : Option Char) (current : Text) : Text → List Text
  | [] => closePart current []
  | c :: r =>
    match quote with
    | some q => splitPairsFrom (if c = q then none else some q) (current ++ [c]) r
    | none =>
      if Text.isQuote c then splitPairsFrom (some c) (current ++ [c]) r
      else if isPairDivider c then closePart current (splitPairsFrom none [] r)
      else splitPairsFrom none (current ++ [c]) r

/-- The pairs of an attribute group: `a=1, b="x y" c` has the pairs `a=1`, `b="x y"` and `c`. -/
def splitPairs (group : Text) : List Text := splitPairsFrom none [] group

end OutlinePage.Outline
