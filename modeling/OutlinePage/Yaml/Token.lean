import OutlinePage.Yaml.Fault

/-!
# Tokens of YAML documents

A document is cut into tokens from left to right. Where a block begins or ends is not written but
seen from the indentation, and whether a scalar is a key is seen only from the colon after it. So
the tokens that are cut wait in a queue until nothing can come in front of them any more.
-/

namespace OutlinePage.Yaml

/-- What a token is. -/
inductive TokenKind where
  | directive
  /-- The version that a document is written for. -/
  | versionDirective (major : Nat)
  /-- A handle that stands for the beginning of tags. -/
  | tagDirective (handle beginning : Text)
  | documentStart
  | documentEnd
  | streamEnd
  | blockSequenceStart
  | blockMappingStart
  | blockEnd
  | flowSequenceStart
  | flowSequenceEnd
  | flowMappingStart
  | flowMappingEnd
  | key
  | value
  | blockEntry
  | flowEntry
  | «alias» (name : Text)
  | anchor (name : Text)
  /-- A tag: its handle, if any, and what follows. -/
  | tag (handle : Option Text) (suffix : Text)
  | scalar (text : Text) (isPlain : Bool)
deriving DecidableEq, Repr, Inhabited

/-- How a token is called in messages. -/
def TokenKind.label : TokenKind → Text
  | .directive => "<directive>"
  | .versionDirective _ => "<directive>"
  | .tagDirective _ _ => "<directive>"
  | .documentStart => "<document start>"
  | .documentEnd => "<document end>"
  | .streamEnd => "<stream end>"
  | .blockSequenceStart => "<block sequence start>"
  | .blockMappingStart => "<block mapping start>"
  | .blockEnd => "<block end>"
  | .flowSequenceStart => "["
  | .flowSequenceEnd => "]"
  | .flowMappingStart => "\x7b"
  | .flowMappingEnd => "\x7d"
  | .key => "?"
  | .value => ":"
  | .blockEntry => "-"
  | .flowEntry => ","
  | .alias _ => "<alias>"
  | .anchor _ => "<anchor>"
  | .tag _ _ => "<tag>"
  | .scalar _ _ => "<scalar>"

/-- A token and its place. -/
structure Token where
  kind : TokenKind
  start : Mark
  stop : Mark
deriving DecidableEq, Repr, Inhabited

/-- A token that will turn out to be a key if a colon follows. -/
structure PossibleKey where
  /-- The token's number. -/
  token : Nat
  /-- Nothing but a key may stand there. -/
  isRequired : Bool
  offset : Nat
  mark : Mark
deriving Repr

/-- The work of cutting a document into tokens. -/
structure Scanner where
  rest : Text
  offset : Nat := 0
  mark : Mark := {}
  /-- How many flow collections are open. -/
  flow : Nat := 0
  /-- Tokens that were cut and not taken. -/
  queue : List Token := []
  /-- How many tokens were taken. -/
  taken : Nat := 0
  /-- The column of the innermost block; -1 outside of all blocks. -/
  indent : Int := -1
  /-- The columns of the outer blocks. -/
  outer : List Int := []
  /-- May a key begin here? -/
  allowsKey : Bool := true
  /-- The possible key of each flow level. -/
  keys : List (Nat × PossibleKey) := []
  isDone : Bool := false

/-- A step of cutting. -/
abbrev Scan := EStateM Fault Scanner

/-- A line ends here. -/
def isBreak (c : Char) : Bool :=
  c == '\n' || c == '\r' || c == '\x85' || c == '\u2028' || c == '\u2029'

/-- A line or the document ends here. -/
def isLineEnd (c : Char) : Bool := c == '\x00' || isBreak c

/-- A line or the document ends here, or a space follows. -/
def isSpaceOrEnd (c : Char) : Bool := c == ' ' || isLineEnd c

/-- As before, or a tab follows. -/
def isGap (c : Char) : Bool := c == '\t' || isSpaceOrEnd c

/-- A character of names of directives, anchors and handles. -/
def isNameChar (c : Char) : Bool := Text.isAlnum c || c == '-' || c == '_'

namespace Scanner

/-- The place after a character. -/
def after (m : Mark) (c : Char) : Mark :=
  if isBreak c then ⟨m.line + 1, 0⟩ else if c == '\ufeff' then m else ⟨m.line, m.column + 1⟩

/-- Goes `n` characters further. -/
def forward (s : Scanner) : Nat → Scanner
  | 0 => s
  | n + 1 =>
    match s.rest with
    | [] => s
    | c :: rest => forward { s with rest, offset := s.offset + 1, mark := after s.mark c } n

/-- The character `n` places further; at the end it is the null character. -/
def peek (s : Scanner) (n : Nat) : Char := s.rest.getD n '\x00'

/-- Does a line begin here that separates documents? -/
def atSeparator (s : Scanner) : Bool :=
  (Text.startsWith "---" s.rest || Text.startsWith "..." s.rest) && isGap (s.peek 3)

end Scanner

/-- The character `n` places further. -/
def peek (n : Nat) : Scan Char := do return (← get).peek n

/-- Goes `n` characters further. -/
def forward (n : Nat) : Scan Unit := modify (·.forward n)

/-- The place. -/
def here : Scan Mark := do return (← get).mark

/-- Takes characters as long as they satisfy `p`. -/
def takeAll (p : Char → Bool) : Scan Text := do
  let t := (← get).rest.takeWhile p
  forward t.length
  return t

/-- Steps over characters as long as they satisfy `p`. -/
def skipAll (p : Char → Bool) : Scan Unit := do discard (takeAll p)

/-- Fails at this place. -/
def fail {α : Type} (context : Option Context) (problem : Text) : Scan α := do
  throw (.misplaced context problem (← here))

/-- Fails because another character was expected than the one `n` places further. -/
def failExpecting {α : Type} (activity : Text) (start : Mark) (what : Text) (n : Nat) : Scan α := do
  let c ← peek n
  fail (some ⟨activity, some start⟩) ("expected " ++ what ++ ", but found " ++ Text.quote [c])

/-- Steps over the end of a line and gives the line end that it stands for. -/
def takeBreak : Scan Text := do
  let c ← peek 0
  if c == '\r' && (← peek 1) == '\n' then forward 2; return "\n"
  else if c == '\r' || c == '\n' || c == '\x85' then forward 1; return "\n"
  else if c == '\u2028' || c == '\u2029' then forward 1; return [c]
  else return []

end OutlinePage.Yaml
