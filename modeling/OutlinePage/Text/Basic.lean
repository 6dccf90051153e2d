/-!
# Texts

A text is the list of its code points, so that every function on texts is an ordinary recursion.
Offsets, columns and lengths count code points.
-/

namespace OutlinePage

/-- A text, as the list of its code points. -/
abbrev Text := List Char

/-- String literals stand for texts. -/
instance : Coe String Text := ⟨String.toList⟩

namespace Text

/-- The pieces of a text between the occurrences of `d`. There is always at least one piece. -/
def split (d : Char) : Text → List Text
  | [] => [[]]
  | c :: r =>
    if c = d then [] :: split d r
    else match split d r with
      | [] => [[c]]
      | p :: ps => (c :: p) :: ps

/-- The pieces, one after the other, with `d` between neighbours. -/
def join (d : Text) : List Text → Text
  | [] => []
  | [p] => p
  | p :: q :: ps => p ++ d ++ join d (q :: ps)

/-- Does the text begin with `p`? -/
def startsWith (p t : Text) : Bool := p.isPrefixOf t

/-- Does the text end with `p`? -/
def endsWith (p t : Text) : Bool := p.isSuffixOf t

/-- A text ends with `p` if it is something followed by `p`. -/
theorem endsWith_iff {p t : Text} : endsWith p t = true ↔ ∃ front, t = front ++ p := by
  rw [endsWith, List.isSuffixOf_iff_suffix]
  exact exists_congr fun front => eq_comm

/-- Does `p` occur in the text? -/
def hasInfix (p : Text) : Text → Bool
  | [] => p.isEmpty
  | c :: r => p.isPrefixOf (c :: r) || hasInfix p r

/-- The text before the first `d`, and the text after it if there is a `d`. -/
def cut (d : Char) (t : Text) : Text × Option Text :=
  match t.dropWhile (· != d) with
  | [] => (t, none)
  | _ :: after => (t.takeWhile (· != d), some after)

/-- Every `c` becomes the text `sub`. -/
def expand (c : Char) (sub : Text) (t : Text) : Text :=
  t.flatMap fun x => if x = c then sub else [x]

/-- The last `n` code points. -/
def takeEnd (n : Nat) (t : Text) : Text := t.drop (t.length - n)

/-- All but the last `n` code points. -/
def dropEnd (n : Nat) (t : Text) : Text := t.take (t.length - n)

/-- A natural number in decimal notation. -/
def ofNat (n : Nat) : Text := Nat.toDigits 10 n

/-- An integer in decimal notation, with a leading `-` below zero. -/
def ofInt : Int → Text
  | .ofNat n => ofNat n
  | .negSucc n => '-' :: ofNat (n + 1)

/-- A carriage return, alone or before a line feed, becomes one line feed. -/
def unifyNewlines : Text → Text
  | [] => []
  | '\r' :: '\n' :: r => '\n' :: unifyNewlines r
  | c :: r => (if c = '\r' then '\n' else c) :: unifyNewlines r

/-- Is the character an ASCII letter? -/
def isLetter (c : Char) : Bool := c.isAlpha

/-- Is the character an ASCII digit? -/
def isDigit (c : Char) : Bool := c.isDigit

/-- Is the character an ASCII letter or digit? -/
def isAlnum (c : Char) : Bool := c.isAlphanum

end Text

end OutlinePage
