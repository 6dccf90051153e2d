import OutlinePage.Text.Utf8
import OutlinePage.Yaml.Token.Scalar

/-!
# Cutting YAML documents into tokens
-/

namespace OutlinePage.Yaml

/-- Puts a token at the end of the queue. -/
def enqueue (t : Token) : Scan Unit := modify fun s => { s with queue := s.queue ++ [t] }

/-- Puts an empty token for this place at the end of the queue. -/
def enqueueHere (kind : TokenKind) : Scan Unit := do
  let m ← here
  enqueue ⟨kind, m, m⟩

/-- Steps over `n` characters, which are a token. -/
def enqueueNext (kind : TokenKind) (n : Nat) : Scan Unit := do
  let start ← here
  forward n
  enqueue ⟨kind, start, ← here⟩

/-- May a key begin from here on? -/
def allowKey (b : Bool) : Scan Unit := modify fun s => { s with allowsKey := b }

/-- Fails because a key that was begun has no colon. -/
def failWithoutColon {α : Type} (k : PossibleKey) : Scan α :=
  fail (some ⟨"while scanning a simple key", some k.mark⟩) "could not find expected ':'"

/-- Forgets the possible keys that the line's end or their length rules out. -/
def dropStaleKeys : Scan Unit := do
  let s ← get
  let isStale (k : PossibleKey) : Bool := k.mark.line != s.mark.line || s.offset - k.offset > 1024
  if let some (_, k) := s.keys.find? fun (_, k) => isStale k && k.isRequired then failWithoutColon k
  set { s with keys := s.keys.filter fun (_, k) => !isStale k }

/-- Forgets the possible key of this flow level. -/
def dropKey : Scan Unit := do
  let s ← get
  if let some k := s.keys.lookup s.flow then
    if k.isRequired then failWithoutColon k
  set { s with keys := s.keys.filter (·.1 != s.flow) }

/-- Notes that the next token may be a key. -/
def noteKey : Scan Unit := do
  if (← get).allowsKey then
    dropKey
    let s ← get
    let isRequired := s.flow == 0 && s.indent == s.mark.column
    let key := ⟨s.taken + s.queue.length, isRequired, s.offset, s.mark⟩
    set { s with keys := s.keys ++ [(s.flow, key)] }

/-- Ends the blocks that are indented further than a column. -/
def unwind (column : Int) : Scan Unit := do
  let s ← get
  if s.flow == 0 then
    let (ended, outer) := split s.indent s.outer
    let close : Token := ⟨.blockEnd, s.mark, s.mark⟩
    set { s with
      indent := outer.headD (-1), outer := outer.drop 1
      queue := s.queue ++ List.replicate ended close }
where
  /-- How many blocks end, and the columns of those that stay open. -/
  split (indent : Int) (outer : List Int) : Nat × List Int :=
    match outer with
    | [] => if indent > column then (1, []) else (0, [indent])
    | next :: outer =>
      if indent > column then
        let (n, rest) := split next outer
        (n + 1, rest)
      else (0, indent :: next :: outer)

/-- Begins a block at a column, unless it is already open. -/
def beginBlock (column : Nat) : Scan Bool := do
  let s ← get
  if s.indent < column then
    set { s with outer := s.indent :: s.outer, indent := (column : Int) }
    return true
  else return false

/-- Begins a block at this place, unless it is already open. A key has to be allowed here. -/
def beginBlockHere (kind : TokenKind) (what : Text) : Scan Unit := do
  let s ← get
  if s.flow == 0 then
    if !s.allowsKey then fail none (what ++ " are not allowed here")
    if ← beginBlock s.mark.column then enqueueHere kind

/-- Leaves all blocks. -/
def leaveBlocks : Scan Unit := do
  unwind (-1)
  dropKey
  allowKey false

/-- A name of a directive, an anchor or an alias. -/
def scanName (activity : Text) (start : Mark) (mayFollow : Char → Bool) : Scan Text := do
  let expectation : Text := "alphabetic or numeric character"
  let name := (← get).rest.takeWhile isNameChar
  if name.isEmpty then failExpecting activity start expectation 0
  forward name.length
  if !mayFollow (← peek 0) then failExpecting activity start expectation 0
  return name

/-- The number in a version. -/
def scanVersionNumber (start : Mark) : Scan Nat := do
  let digits := (← get).rest.takeWhile Char.isDigit
  if digits.isEmpty then failExpecting "while scanning a directive" start "a digit" 0
  forward digits.length
  return digits.foldl (fun n c => 10 * n + (c.toNat - 48)) 0

/-- Escaped bytes in a tag. -/
def scanTagBytes (activity : Text) (start : Mark) : Nat → Scan (List UInt8)
  | 0 => return []
  | fuel + 1 => do
    if (← peek 0) != '%' then return []
    forward 1
    if let some k ← badHexDigit? 2 then
      failExpecting activity start "URI escape sequence of 2 hexadecimal numbers" k
    let byte := hexNumber ((← get).rest.take 2)
    forward 2
    return byte.toUInt8 :: (← scanTagBytes activity start fuel)

/-- A character of a tag. -/
def isTagChar (c : Char) : Bool :=
  Text.isAlnum c || "-;/?:@&=+$,_.!~*'()[]%".toList.contains c

/-- The text of a tag, in which bytes may be escaped. -/
def scanTagText (name : Text) (start : Mark) : Nat → Scan Text
  | 0 => return []
  | fuel + 1 => do
    let plain ← takeAll fun c => isTagChar c && c != '%'
    if (← peek 0) == '%' then
      let mark ← here
      let activity := "while scanning a " ++ name
      let bytes ← scanTagBytes activity start ((← get).rest.length)
      match Utf8.decode bytes with
      | .ok t => return plain ++ t ++ (← scanTagText name start fuel)
      | .error f => throw (.misplaced (some ⟨activity, some start⟩) f.message mark)
    else return plain

/-- The text of a tag, which may not be empty. -/
def scanTagTextNonempty (name : Text) (start : Mark) : Scan Text := do
  let t ← scanTagText name start ((← get).rest.length + 1)
  if t.isEmpty then failExpecting ("while parsing a " ++ name) start "URI" 0
  return t

/-- The handle of a tag, between exclamation marks. -/
def scanHandle (name : Text) (start : Mark) : Scan Text := do
  let activity := "while scanning a " ++ name
  if (← peek 0) != '!' then failExpecting activity start "'!'" 0
  if (← peek 1) == ' ' then
    forward 1
    return "!"
  let inner := ((← get).rest.drop 1).takeWhile isNameChar
  if (← peek (inner.length + 1)) != '!' then
    forward (inner.length + 1)
    failExpecting activity start "'!'" 0
  forward (inner.length + 2)
  return "!" ++ inner ++ "!"

/-- A directive. -/
def scanDirective : Scan Token := do
  let activity : Text := "while scanning a directive"
  let start ← here
  forward 1
  let name ← scanName activity start isSpaceOrEnd
  let kind ← do
    if name == "YAML" then
      skipAll (· == ' ')
      let major ← scanVersionNumber start
      if (← peek 0) != '.' then failExpecting activity start "a digit or '.'" 0
      forward 1
      discard (scanVersionNumber start)
      if !isSpaceOrEnd (← peek 0) then failExpecting activity start "a digit or ' '" 0
      pure (.versionDirective major)
    else if name == "TAG" then
      skipAll (· == ' ')
      let handle ← scanHandle "directive" start
      if (← peek 0) != ' ' then failExpecting activity start "' '" 0
      skipAll (· == ' ')
      let beginning ← scanTagTextNonempty "directive" start
      if !isSpaceOrEnd (← peek 0) then failExpecting activity start "' '" 0
      pure (.tagDirective handle beginning)
    else
      skipAll (!isLineEnd ·)
      pure TokenKind.directive
  let stop ← here
  skipAll (· == ' ')
  if (← peek 0) == '#' then skipAll (!isLineEnd ·)
  if !isLineEnd (← peek 0) then failExpecting activity start "a comment or a line break" 0
  discard takeBreak
  return ⟨kind, start, stop⟩

/-- An anchor or an alias. -/
def scanAnchor (what : Text) (kind : Text → TokenKind) : Scan Token := do
  let start ← here
  forward 1
  let name ← scanName ("while scanning an " ++ what) start fun c =>
    isGap c || "?:,]\x7d%@`".toList.contains c
  return ⟨kind name, start, ← here⟩

/-- A tag. -/
def scanTag : Scan Token := do
  let start ← here
  let c ← peek 1
  let kind ← do
    if c == '<' then
      forward 2
      let suffix ← scanTagTextNonempty "tag" start
      if (← peek 0) != '>' then failExpecting "while parsing a tag" start "'>'" 0
      forward 1
      pure (.tag none suffix)
    else if isGap c then
      forward 1
      pure (.tag none "!")
    else
      let word := ((← get).rest.drop 1).takeWhile (!isSpaceOrEnd ·)
      let handle ← if word.contains '!' then scanHandle "tag" start else do
        forward 1
        pure ("!" : Text)
      let suffix ← scanTagTextNonempty "tag" start
      pure (.tag (some handle) suffix)
  if !isSpaceOrEnd (← peek 0) then failExpecting "while scanning a tag" start "' '" 0
  return ⟨kind, start, ← here⟩

/-- Steps over white space, line ends and comments. After a line end a key may begin. -/
def skipToToken : Nat → Scan Unit
  | 0 => return ()
  | fuel + 1 => do
    skipAll (· == ' ')
    if (← peek 0) == '#' then skipAll (!isLineEnd ·)
    let lineEnd ← takeBreak
    if !lineEnd.isEmpty then
      if (← get).flow == 0 then allowKey true
      skipToToken fuel

/-- A colon after a key or after a complex key. -/
def fetchValue : Scan Unit := do
  let s ← get
  match s.keys.lookup s.flow with
  | some k =>
    set { s with keys := s.keys.filter (·.1 != s.flow) }
    let opens ← if s.flow == 0 then beginBlock k.mark.column else pure false
    let before : List Token :=
      (if opens then [⟨.blockMappingStart, k.mark, k.mark⟩] else []) ++ [⟨.key, k.mark, k.mark⟩]
    let n := k.token - s.taken
    modify fun s => { s with queue := s.queue.take n ++ before ++ s.queue.drop n, allowsKey := false }
  | none =>
    beginBlockHere .blockMappingStart "mapping values"
    allowKey (s.flow == 0)
    dropKey
  enqueueNext .value 1

/-- May a plain scalar begin with the next character? -/
def startsPlain (s : Scanner) : Bool :=
  let c := s.peek 0
  !(isGap c || "-?:,[]\x7b\x7d#&*!|>'\"%@`".toList.contains c) ||
    (!isGap (s.peek 1) && (c == '-' || s.flow == 0 && (c == '?' || c == ':')))

/-- Opens a flow collection, which may be a key. -/
def openFlow (kind : TokenKind) : Scan Unit := do
  noteKey
  modify fun s => { s with flow := s.flow + 1, allowsKey := true }
  enqueueNext kind 1

/-- Closes a flow collection. -/
def closeFlow (kind : TokenKind) : Scan Unit := do
  dropKey
  modify fun s => { s with flow := s.flow - 1, allowsKey := false }
  enqueueNext kind 1

/-- Cuts a token that may be a key. -/
def fetchKeyLike (scan : Scan Token) : Scan Unit := do
  noteKey
  allowKey false
  enqueue (← scan)

/-- Cuts the next token, with the tokens for blocks that begin or end before it. -/
def fetch : Scan Unit := do
  if (← get).offset == 0 && (← peek 0) == '\ufeff' then forward 1
  skipToToken ((← get).rest.length + 1)
  dropStaleKeys
  unwind (← here).column
  let s ← get
  let c := s.peek 0
  let next := s.peek 1
  let atStart := s.mark.column == 0
  let inFlow := s.flow > 0
  if c == '\x00' then
    leaveBlocks
    enqueueHere .streamEnd
    modify fun s => { s with keys := [], isDone := true }
  else if c == '%' && atStart then
    leaveBlocks
    enqueue (← scanDirective)
  else if atStart && s.atSeparator then
    leaveBlocks
    enqueueNext (if c == '-' then .documentStart else .documentEnd) 3
  else if c == '[' then openFlow .flowSequenceStart
  else if c == '{' then openFlow .flowMappingStart
  else if c == ']' then closeFlow .flowSequenceEnd
  else if c == '}' then closeFlow .flowMappingEnd
  else if c == ',' then
    allowKey true
    dropKey
    enqueueNext .flowEntry 1
  else if c == '-' && isGap next then
    beginBlockHere .blockSequenceStart "sequence entries"
    allowKey true
    dropKey
    enqueueNext .blockEntry 1
  else if c == '?' && (inFlow || isGap next) then
    beginBlockHere .blockMappingStart "mapping keys"
    allowKey (!inFlow)
    dropKey
    enqueueNext .key 1
  else if c == ':' && (inFlow || isGap next) then fetchValue
  else if c == '*' then fetchKeyLike (scanAnchor "alias" .alias)
  else if c == '&' then fetchKeyLike (scanAnchor "anchor" .anchor)
  else if c == '!' then fetchKeyLike scanTag
  else if (c == '|' || c == '>') && !inFlow then
    allowKey true
    dropKey
    enqueue (← blockScalar (c == '>'))
  else if c == '\'' || c == '"' then fetchKeyLike (quotedScalar (c == '"'))
  else if startsPlain s then fetchKeyLike plainScalar
  else
    fail (some ⟨"while scanning for the next token", none⟩)
      ("found character " ++ Text.quote [c] ++ " that cannot start any token")

/-- The number of the first token in the queue that may turn out to be a key. -/
def nextKey? (s : Scanner) : Option Nat := (s.keys.map (·.2.token)).min?

/-- Cuts tokens until nothing can come in front of the first one in the queue. -/
def fill : Nat → Scan Unit
  | 0 => return ()
  | fuel + 1 => do
    let s ← get
    if s.isDone then return ()
    if s.queue.isEmpty then
      fetch
      fill fuel
    else
      dropStaleKeys
      if nextKey? (← get) == some s.taken then
        fetch
        fill fuel

/-- The next token, which stays in the queue. -/
def peekToken : Scan Token := do
  fill ((← get).rest.length + 2)
  return (← get).queue.headD default

/-- Takes the next token. -/
def takeToken : Scan Token := do
  let t ← peekToken
  modify fun s => { s with queue := s.queue.drop 1, taken := s.taken + 1 }
  return t

end OutlinePage.Yaml
