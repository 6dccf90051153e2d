import OutlinePage.Yaml.Token

/-!
# Scalars of YAML documents

The texts in a document: without quotes, in single or double quotes, or as an indented block of
lines. Inside a scalar a single line end is read as a space.
-/

namespace OutlinePage.Yaml

/-- The characters that a letter after a backslash stands for. -/
def escapes : List (Char × Char) :=
  [('0', '\x00'), ('a', '\x07'), ('b', '\x08'), ('t', '\t'), ('\t', '\t'), ('n', '\n'), ('v', '\x0b'),
    ('f', '\x0c'), ('r', '\r'), ('e', '\x1b'), (' ', ' '), ('"', '"'), ('\\', '\\'), ('/', '/'),
    ('N', '\x85'), ('_', '\xa0'), ('L', '\u2028'), ('P', '\u2029')]

/-- The value of a hexadecimal digit. -/
def hexValue (c : Char) : Nat :=
  if c.isDigit then c.toNat - 48 else c.toLower.toNat - 87

/-- A hexadecimal digit. -/
def isHexDigit (c : Char) : Bool := c.isDigit || ('a' ≤ c.toLower && c.toLower ≤ 'f')

/-- The number that hexadecimal digits stand for. -/
def hexNumber (t : Text) : Nat := t.foldl (fun n c => 16 * n + hexValue c) 0

/-- The place of the first of the next `n` characters that is no hexadecimal digit. -/
def badHexDigit? (n : Nat) : Scan (Option Nat) := do
  let s ← get
  return (List.range n).find? fun k => !isHexDigit (s.peek k)

/-- The line ends before the next character that is no white space, as they are kept in quotes. -/
def quotedBreaks (start : Mark) : Nat → Scan Text
  | 0 => return []
  | fuel + 1 => do
    if (← get).atSeparator then
      fail (some ⟨"while scanning a quoted scalar", some start⟩) "found unexpected document separator"
    skipAll fun c => c == ' ' || c == '\t'
    if isBreak (← peek 0) then
      let first ← takeBreak
      return first ++ (← quotedBreaks start fuel)
    else return []

/-- White space between quotes: a line end is a space, and more of them are one less. -/
def quotedSpaces (start : Mark) : Scan Text := do
  let spaces ← takeAll fun c => c == ' ' || c == '\t'
  let c ← peek 0
  if c == '\x00' then
    fail (some ⟨"while scanning a quoted scalar", some start⟩) "found unexpected end of stream"
  else if isBreak c then
    let first ← takeBreak
    let more ← quotedBreaks start ((← get).rest.length + 1)
    return (if first != "\n" then first else if more.isEmpty then " " else []) ++ more
  else return spaces

/-- What a backslash in double quotes and the characters after it stand for. -/
def escaped (start : Mark) : Scan Text := do
  let activity : Text := "while scanning a double-quoted scalar"
  let c ← peek 0
  let codeLength := if c == 'x' then 2 else if c == 'u' then 4 else if c == 'U' then 8 else 0
  if let some d := escapes.lookup c then
    forward 1
    return [d]
  else if codeLength > 0 then
    forward 1
    if let some k ← badHexDigit? codeLength then
      failExpecting activity start
        ("escape sequence of " ++ Text.ofNat codeLength ++ " hexadecimal numbers") k
    let digits := (← get).rest.take codeLength
    forward codeLength
    return [Char.ofNat (hexNumber digits)]
  else if isBreak c then
    discard takeBreak
    quotedBreaks start ((← get).rest.length + 1)
  else fail (some ⟨activity, some start⟩) ("found unknown escape character " ++ Text.quote [c])

/-- Characters between quotes up to the next white space or the closing quote. -/
def quotedWord (isDouble : Bool) (start : Mark) : Nat → Scan Text
  | 0 => return []
  | fuel + 1 => do
    let plain ← takeAll fun c => !(c == '\'' || c == '"' || c == '\\' || isGap c)
    let c ← peek 0
    if !isDouble && c == '\'' && (← peek 1) == '\'' then
      forward 2
      return plain ++ '\'' :: (← quotedWord isDouble start fuel)
    else if (isDouble && c == '\'') || (!isDouble && (c == '"' || c == '\\')) then
      forward 1
      return plain ++ c :: (← quotedWord isDouble start fuel)
    else if isDouble && c == '\\' then
      forward 1
      let text ← escaped start
      return plain ++ text ++ (← quotedWord isDouble start fuel)
    else return plain

/-- White space and words up to the closing quote. -/
def quotedRest (isDouble : Bool) (start : Mark) : Nat → Scan Text
  | 0 => return []
  | fuel + 1 => do
    if (← peek 0) == (if isDouble then '"' else '\'') then return []
    let spaces ← quotedSpaces start
    let word ← quotedWord isDouble start ((← get).rest.length + 1)
    return spaces ++ word ++ (← quotedRest isDouble start fuel)

/-- A scalar in quotes. -/
def quotedScalar (isDouble : Bool) : Scan Token := do
  let start ← here
  forward 1
  let fuel := (← get).rest.length + 1
  let first ← quotedWord isDouble start fuel
  let rest ← quotedRest isDouble start fuel
  forward 1
  return ⟨.scalar (first ++ rest) false, start, ← here⟩

/-- Does a plain scalar end before the character `n` places further? -/
def endsPlain (s : Scanner) (n : Nat) : Bool :=
  let c := s.peek n
  let next := s.peek (n + 1)
  let isFlowMark (c : Char) : Bool := c == ',' || c == '[' || c == ']' || c == '{' || c == '}'
  let inFlow := s.flow > 0
  isGap c || (c == ':' && (isGap next || inFlow && isFlowMark next)) ||
    (inFlow && (isFlowMark c || c == '?'))

/-- The line ends between the lines of a plain scalar; nothing if the document ends before the next
line. -/
def plainBreaks : Nat → Scan (Option Text)
  | 0 => return some []
  | fuel + 1 => do
    skipAll (· == ' ')
    if isBreak (← peek 0) then
      let first ← takeBreak
      if (← get).atSeparator then return none
      return (← plainBreaks fuel).map (first ++ ·)
    else return some []

/-- White space inside a plain scalar, if the scalar may go on after it. -/
def plainSpaces : Scan Text := do
  let spaces ← takeAll (· == ' ')
  if isBreak (← peek 0) then
    let first ← takeBreak
    modify fun s => { s with allowsKey := true }
    if (← get).atSeparator then return []
    match ← plainBreaks ((← get).rest.length + 1) with
    | none => return []
    | some more => return (if first != "\n" then first else if more.isEmpty then " " else []) ++ more
  else return spaces

/-- The words of a plain scalar after white space, and where it ends. -/
def plainWords (indent : Int) : Nat → Text → Mark → Scan (Text × Mark)
  | 0, _, stop => return ([], stop)
  | fuel + 1, spaces, stop => do
    let s ← get
    if s.peek 0 == '#' then return ([], stop)
    let length := ((List.range (s.rest.length + 1)).takeWhile (!endsPlain s ·)).length
    if length == 0 then return ([], stop)
    modify fun s => { s with allowsKey := false }
    let word := s.rest.take length
    forward length
    let stop ← here
    let next ← plainSpaces
    let s ← get
    if next.isEmpty || s.peek 0 == '#' || (s.flow == 0 && s.mark.column < indent) then
      return (spaces ++ word, stop)
    let (more, stop) ← plainWords indent fuel next stop
    return (spaces ++ word ++ more, stop)

/-- A scalar without quotes. -/
def plainScalar : Scan Token := do
  let start ← here
  let s ← get
  let (text, stop) ← plainWords (s.indent + 1) (s.rest.length + 1) [] start
  return ⟨.scalar text true, start, stop⟩

/-- What becomes of the line ends at the end of a block of lines. -/
inductive Chomping where
  /-- One stays. -/
  | clip
  /-- None stays. -/
  | strip
  /-- All stay. -/
  | keep
deriving DecidableEq

/-- The activity of reading a block of lines, for messages. -/
def blockActivity : Text := "while scanning a block scalar"

/-- A sign for the line ends at the end of the block. -/
def chomping? : Scan (Option Chomping) := do
  let c ← peek 0
  if c == '+' then forward 1; return some .keep
  else if c == '-' then forward 1; return some .strip
  else return none

/-- A digit for the indentation of the block. -/
def increment? (start : Mark) : Scan (Option Nat) := do
  let c ← peek 0
  if c == '0' then
    fail (some ⟨blockActivity, some start⟩)
      "expected indentation indicator in the range 1-9, but found 0"
  else if c.isDigit then forward 1; return some (c.toNat - 48)
  else return none

/-- The line that opens a block of lines. -/
def blockHeader (start : Mark) : Scan (Chomping × Option Nat) := do
  let before ← chomping?
  let increment ← increment? start
  let after ← if before.isNone && increment.isSome then chomping? else pure none
  if !isSpaceOrEnd (← peek 0) then
    failExpecting blockActivity start "chomping or indentation indicators" 0
  skipAll (· == ' ')
  if (← peek 0) == '#' then skipAll (!isLineEnd ·)
  if !isLineEnd (← peek 0) then failExpecting blockActivity start "a comment or a line break" 0
  discard takeBreak
  return ((before.or after).getD .clip, increment)

/-- Empty lines at the beginning of a block: the line ends, the widest indentation so far, and where
they end. -/
def leadingBreaks : Nat → Nat → Mark → Scan (List Text × Nat × Mark)
  | 0, widest, stop => return ([], widest, stop)
  | fuel + 1, widest, stop => do
    let c ← peek 0
    if c == ' ' then
      forward 1
      leadingBreaks fuel (max widest (← here).column) stop
    else if isBreak c then
      let first ← takeBreak
      let (more, widest, stop) ← leadingBreaks fuel widest (← here)
      return (first :: more, widest, stop)
    else return ([], widest, stop)

/-- Steps over spaces up to a column. -/
def skipIndent (indent : Nat) : Nat → Scan Unit
  | 0 => return ()
  | fuel + 1 => do
    if (← here).column < indent && (← peek 0) == ' ' then
      forward 1
      skipIndent indent fuel

/-- Empty lines inside a block: the line ends, and where they end. -/
def innerBreaks (indent : Nat) : Nat → Mark → Scan (List Text × Mark)
  | 0, stop => return ([], stop)
  | fuel + 1, stop => do
    skipIndent indent indent
    if isBreak (← peek 0) then
      let first ← takeBreak
      let (more, stop) ← innerBreaks indent fuel (← here)
      return (first :: more, stop)
    else return ([], stop)

/-- The lines of a block: their text, the last line end, the empty lines at the end, and where the
block ends. -/
def blockLines (isFolded : Bool) (indent : Nat) :
    Nat → List Text → Mark → Scan (Text × Text × List Text × Mark)
  | 0, breaks, stop => return ([], [], breaks, stop)
  | fuel + 1, breaks, stop => do
    let inside : Scan Bool := do return (← here).column == indent && (← peek 0) != '\x00'
    if !(← inside) then return ([], [], breaks, stop)
    let isBlank (c : Char) : Bool := c == ' ' || c == '\t'
    let startsBlank := isBlank (← peek 0)
    let line ← takeAll (!isLineEnd ·)
    let lineEnd ← takeBreak
    let (more, stop) ← innerBreaks indent ((← get).rest.length + 1) (← here)
    let text := breaks.flatten ++ line
    if ← inside then
      let folds := isFolded && lineEnd == "\n" && !startsBlank && !isBlank (← peek 0)
      let joint : Text := if folds then (if more.isEmpty then " " else []) else lineEnd
      let (rest, last, trailing, stop) ← blockLines isFolded indent fuel more stop
      return (text ++ joint ++ rest, last, trailing, stop)
    else return (text, lineEnd, more, stop)

/-- A scalar written as a block of lines. -/
def blockScalar (isFolded : Bool) : Scan Token := do
  let start ← here
  forward 1
  let (chomping, increment) ← blockHeader start
  let s ← get
  let least := max 1 (s.indent + 1).toNat
  let fuel := s.rest.length + 1
  let (breaks, indent, stop) ← match increment with
    | none => do
      let (breaks, widest, stop) ← leadingBreaks fuel 0 s.mark
      pure (breaks, max least widest, stop)
    | some k => do
      let indent := least + k - 1
      let (breaks, stop) ← innerBreaks indent fuel s.mark
      pure (breaks, indent, stop)
  let (text, last, trailing, stop) ← blockLines isFolded indent fuel breaks stop
  let ending := match chomping with
    | .clip => last
    | .strip => []
    | .keep => last ++ trailing.flatten
  return ⟨.scalar (text ++ ending) false, start, stop⟩

end OutlinePage.Yaml
