import OutlinePage.Yaml.Token.Scan

/-!
# Nodes of YAML documents

The tree that a document's tokens describe. An alias stands for the node with the anchor of that
name. A node without a tag of its own is given one by its kind and its text.
-/

namespace OutlinePage.Yaml

/-- A node of a document, with the place where it begins. -/
inductive Node where
  | scalar (tag text : Text) (mark : Mark)
  | sequence (tag : Text) (items : List Node) (mark : Mark)
  | mapping (tag : Text) (pairs : List (Node × Node)) (mark : Mark)
deriving Inhabited, Repr

/-- Where the node begins. -/
def Node.mark : Node → Mark
  | .scalar _ _ m => m
  | .sequence _ _ m => m
  | .mapping _ _ m => m

/-- The tag of the node. -/
def Node.tag : Node → Text
  | .scalar t _ _ => t
  | .sequence t _ _ => t
  | .mapping t _ _ => t

/-- How the kind of the node is called in messages. -/
def Node.label : Node → Text
  | .scalar .. => "scalar"
  | .sequence .. => "sequence"
  | .mapping .. => "mapping"

/-- The tags of the language itself begin like this. -/
def tagStart : Text := "tag:yaml.org,2002:"

/-- Is the text digits with marks between groups of them, at least one character? -/
def isDigits (digit : Char → Bool) (t : Text) : Bool :=
  !t.isEmpty && t.all fun c => digit c || c == '_'

/-- The text without a sign in front. -/
def unsigned (t : Text) : Text :=
  match t with
  | '+' :: r => r
  | '-' :: r => r
  | _ => t

/-- The groups after the first in a number to the base of sixty. -/
def isSixty (t : Text) : Bool :=
  match t with
  | [a] => a.isDigit
  | [a, b] => '0' ≤ a && a ≤ '5' && b.isDigit
  | _ => false

/-- Does a text begin with a digit of which `p` holds, and go on with digits? -/
def startsDigits (p : Char → Bool) (t : Text) : Bool :=
  match t with
  | c :: r => p c && r.all fun c => c.isDigit || c == '_'
  | [] => false

/-- Is the text an integer? -/
def isIntText (t : Text) : Bool :=
  let u := unsigned t
  let isBase (base : Text) (digit : Char → Bool) : Bool :=
    Text.startsWith base u && isDigits digit (u.drop base.length)
  isBase "0b" (fun c => c == '0' || c == '1') || isBase "0" (fun c => '0' ≤ c && c ≤ '7') ||
    u == "0" || startsDigits (fun c => '1' ≤ c && c ≤ '9') u || isBase "0x" isHexDigit ||
    (match Text.split ':' u with
      | first :: (g :: gs) =>
        startsDigits (fun c => '1' ≤ c && c ≤ '9') first && (g :: gs).all isSixty
      | _ => false)

/-- Is the text an exponent with its sign, or nothing? -/
def isExponent (t : Text) : Bool :=
  match t with
  | [] => true
  | e :: s :: r =>
    (e == 'e' || e == 'E') && (s == '+' || s == '-') && !r.isEmpty && r.all Char.isDigit
  | _ => false

/-- Is the text a number with a decimal point? -/
def isFloatText (t : Text) : Bool :=
  let u := unsigned t
  let whole := u.takeWhile (· != '.')
  let fraction := (u.drop (whole.length + 1)).takeWhile fun c => c.isDigit || c == '_'
  let rest := u.drop (whole.length + 1 + fraction.length)
  let hasPoint := whole.length < u.length
  let isDigit (c : Char) : Bool := c.isDigit
  let named (t : Text) (names : List Text) : Bool := names.contains t
  (hasPoint && startsDigits isDigit whole && isExponent rest) ||
    (whole.isEmpty && t == u && startsDigits isDigit fraction && isExponent rest) ||
    (hasPoint && rest.isEmpty && match Text.split ':' whole with
      | first :: (g :: gs) => startsDigits isDigit first && (g :: gs).all isSixty
      | _ => false) ||
    named u [".inf", ".Inf", ".INF"] || named t [".nan", ".NaN", ".NAN"]

/-- Is the text a date: four, two and two digits? -/
def isDateText (t : Text) : Bool :=
  match Text.split '-' t with
  | [y, m, d] => [y, m, d].all (·.all Char.isDigit) && y.length == 4 && m.length == 2 && d.length == 2
  | _ => false

/-- The texts that stand for a truth value. -/
def boolTexts : List (Text × Bool) :=
  [("yes", true), ("Yes", true), ("YES", true), ("no", false), ("No", false), ("NO", false),
    ("true", true), ("True", true), ("TRUE", true), ("false", false), ("False", false),
    ("FALSE", false), ("on", true), ("On", true), ("ON", true), ("off", false), ("Off", false),
    ("OFF", false)]

/-- The texts that stand for nothing. -/
def nullTexts : List Text := ["~", "null", "Null", "NULL", ""]

/-- What a scalar without quotes stands for, by its text: the last part of its tag. -/
def plainTag (t : Text) : Text :=
  if (boolTexts.lookup t).isSome then "bool"
  else if isFloatText t then "float"
  else if isIntText t then "int"
  else if t == "<<" then "merge"
  else if nullTexts.contains t then "null"
  else if isDateText t then "timestamp"
  else if t == "=" then "value"
  else "str"

/-- The work of building nodes from tokens. -/
structure Builder where
  scanner : Scanner
  /-- What the handles of tags stand for. -/
  handles : List (Text × Text) := []
  /-- The nodes with anchors. -/
  anchors : List (Text × Node) := []

/-- A step of building nodes. -/
abbrev Build := EStateM Fault Builder

namespace Build

/-- A step of cutting tokens. -/
def scan {α : Type} (x : Scan α) : Build α := fun b =>
  match x b.scanner with
  | .ok a s => .ok a { b with scanner := s }
  | .error f s => .error f { b with scanner := s }

/-- The kind of the next token. -/
def nextKind : Build TokenKind := do return (← scan peekToken).kind

/-- Is the next token one of these? -/
def next (kinds : List TokenKind) : Build Bool := do return kinds.contains (← nextKind)

/-- Takes the next token. -/
def take : Build Token := scan takeToken

/-- Fails because another token was expected than the next one. -/
def failAt {α : Type} (context : Option Context) (problem : Text → Text) : Build α := do
  let t ← scan peekToken
  throw (.misplaced context (problem (Text.quote t.kind.label)) t.start)

/-- A node without text. -/
def emptyScalar (m : Mark) : Node := .scalar (tagStart ++ "null") [] m

/-- An anchor, if one comes next. -/
def anchor? : Build (Option (Text × Token)) := do
  match ← nextKind with
  | .anchor name => return some (name, ← take)
  | _ => return none

/-- A tag, if one comes next. -/
def tag? : Build (Option (Option Text × Text × Token)) := do
  match ← nextKind with
  | .tag handle suffix => return some (handle, suffix, ← take)
  | _ => return none

/-- Anchor and tag of a node, in either order, and where they begin. -/
def properties : Build (Option Text × Option Text × Option Mark) := do
  let before ← anchor?
  let tag ← tag?
  let after ← if before.isNone && tag.isSome then anchor? else pure none
  let anchor := before.or after
  let start := (before.map (·.2.start)).or (tag.map (·.2.2.start))
  let full ← match tag with
    | none => pure none
    | some (none, suffix, _) => pure (some suffix)
    | some (some handle, suffix, t) =>
      match (← get).handles.lookup handle with
      | some beginning => pure (some (beginning ++ suffix))
      | none =>
        throw (.misplaced (some ⟨"while parsing a node", start⟩)
          ("found undefined tag handle " ++ Text.quote handle) t.start)
  return (anchor.map (·.1), full, start)

/-- Checks that an anchor's name is new, and gives it to a node. -/
def bindAnchor (anchor : Option Text) (m : Mark) (n : Node) : Build Unit := do
  if let some a := anchor then
    if let some first := (← get).anchors.lookup a then
      throw (.misplaced
        (some ⟨"found duplicate anchor " ++ Text.quote a ++ "; first occurrence", some first.mark⟩)
        "second occurrence" m)
    modify fun b => { b with anchors := (a, n) :: b.anchors }

/-- Gives an anchor to a node once it is complete. -/
def rebindAnchor (anchor : Option Text) (n : Node) : Build Unit := do
  if let some a := anchor then modify fun b => { b with anchors := (a, n) :: b.anchors }

/-- The tag of a node: its own, unless it is none or says nothing. -/
def tagOr (tag : Option Text) (other : Text) : Text :=
  match tag with
  | some t => if t == "!" then tagStart ++ other else t
  | none => tagStart ++ other

/-- What may follow where a node is left out. -/
abbrev Stops := List TokenKind

/-- Reads a node, or an empty one at `m` if one of the tokens in `stops` comes next. -/
def nodeOrEmpty (node : Build Node) (stops : Stops) (m : Mark) : Build Node := do
  if ← next stops then return emptyScalar m else node

/-- Reads the node after a colon, or an empty one if there is no colon. -/
def valueOrEmpty (node : Build Node) (stops : Stops) : Build Node := do
  if ← next [.value] then
    let t ← take
    nodeOrEmpty node stops t.stop
  else return emptyScalar (← scan peekToken).start

/-- The entries of a sequence in a block; `start` is where the block begins. -/
def blockEntries (node : Build Node) (start : Mark) : Nat → Build (List Node)
  | 0 => return []
  | fuel + 1 => do
    if ← next [.blockEntry] then
      let t ← take
      let n ← nodeOrEmpty node [.blockEntry, .blockEnd] t.stop
      return n :: (← blockEntries node start fuel)
    if !(← next [.blockEnd]) then
      failAt (some ⟨"while parsing a block collection", some start⟩) fun found =>
        "expected <block end>, but found " ++ found
    discard take
    return []

/-- The entries of a sequence that is not indented. -/
def flatEntries (node : Build Node) : Nat → Build (List Node)
  | 0 => return []
  | fuel + 1 => do
    if ← next [.blockEntry] then
      let t ← take
      let n ← nodeOrEmpty node [.blockEntry, .key, .value, .blockEnd] t.stop
      return n :: (← flatEntries node fuel)
    else return []

/-- The pairs of a mapping in a block; `start` is where the block begins. -/
def blockPairs (node : Build Node) (start : Mark) : Nat → Build (List (Node × Node))
  | 0 => return []
  | fuel + 1 => do
    let stops : Stops := [.key, .value, .blockEnd]
    if ← next [.key] then
      let t ← take
      let k ← nodeOrEmpty node stops t.stop
      let v ← valueOrEmpty node stops
      return (k, v) :: (← blockPairs node start fuel)
    if !(← next [.blockEnd]) then
      failAt (some ⟨"while parsing a block mapping", some start⟩) fun found =>
        "expected <block end>, but found " ++ found
    discard take
    return []

/-- Steps over the comma between two entries of a flow collection. -/
def comma (activity wanted : Text) (start : Mark) (isFirst : Bool) : Build Unit := do
  if !isFirst then
    if ← next [.flowEntry] then discard take
    else
      failAt (some ⟨activity, some start⟩) fun found => "expected " ++ wanted ++ ", but got " ++ found

/-- The entries of a flow sequence. A pair among them is a mapping of its own. -/
def flowEntries (node : Build Node) (start : Mark) : Nat → Bool → Build (List Node)
  | 0, _ => return []
  | fuel + 1, isFirst => do
    if !(← next [.flowSequenceEnd]) then
      comma "while parsing a flow sequence" "',' or ']'" start isFirst
      if ← next [.key] then
        let t ← take
        let k ← nodeOrEmpty node [.value, .flowEntry, .flowSequenceEnd] t.stop
        let v ← valueOrEmpty node [.flowEntry, .flowSequenceEnd]
        let pair := .mapping (tagStart ++ "map") [(k, v)] t.start
        return pair :: (← flowEntries node start fuel false)
      else if !(← next [.flowSequenceEnd]) then
        let n ← node
        return n :: (← flowEntries node start fuel false)
    discard take
    return []

/-- The pairs of a flow mapping. A node alone has an empty value. -/
def flowPairs (node : Build Node) (start : Mark) : Nat → Bool → Build (List (Node × Node))
  | 0, _ => return []
  | fuel + 1, isFirst => do
    if !(← next [.flowMappingEnd]) then
      comma "while parsing a flow mapping" "',' or '\x7d'" start isFirst
      if ← next [.key] then
        let t ← take
        let k ← nodeOrEmpty node [.value, .flowEntry, .flowMappingEnd] t.stop
        let v ← valueOrEmpty node [.flowEntry, .flowMappingEnd]
        return (k, v) :: (← flowPairs node start fuel false)
      else if !(← next [.flowMappingEnd]) then
        let n ← node
        let empty := emptyScalar (← scan peekToken).start
        return (n, empty) :: (← flowPairs node start fuel false)
    discard take
    return []

/-- A node that an alias stands for. -/
def aliased (name : Text) : Build Node := do
  let t ← take
  match (← get).anchors.lookup name with
  | some n => return n
  | none => throw (.misplaced none ("found undefined alias " ++ Text.quote name) t.start)

/-- Reads a node: with `block` it may be a block, and with `flat` a sequence that is not
indented. -/
def node (block flat : Bool) : Nat → Build Node
  | 0 => return emptyScalar {}
  | fuel + 1 => do
    if let .alias name ← nextKind then return ← aliased name
    let (anchor, tag, propertiesStart) ← properties
    let first ← scan peekToken
    let start := propertiesStart.getD first.start
    let blockNode := node true false fuel
    let flatNode := node true true fuel
    let flowNode := node false false fuel
    let size := (← get).scanner.rest.length + (← get).scanner.queue.length + 2
    let sequence (entries : Build (List Node)) : Build Node := do
      let make (ns : List Node) : Node := .sequence (tagOr tag "seq") ns start
      bindAnchor anchor start (make [])
      let n := make (← entries)
      rebindAnchor anchor n
      return n
    let mapping (pairs : Build (List (Node × Node))) : Build Node := do
      let make (ps : List (Node × Node)) : Node := .mapping (tagOr tag "map") ps start
      bindAnchor anchor start (make [])
      let n := make (← pairs)
      rebindAnchor anchor n
      return n
    let scalar (n : Node) : Build Node := do
      bindAnchor anchor start n
      return n
    match first.kind with
    | .blockEntry =>
      if flat then sequence (flatEntries blockNode size) else absent block anchor tag start scalar
    | .scalar text isPlain =>
      discard take
      let isResolved := (isPlain && tag.isNone) || tag == some "!"
      scalar (.scalar (tagOr tag (if isResolved then plainTag text else "str")) text start)
    | .flowSequenceStart => sequence do
        let t ← take
        flowEntries flowNode t.start size true
    | .flowMappingStart => mapping do
        let t ← take
        flowPairs flowNode t.start size true
    | .blockSequenceStart =>
      if block then sequence do
        let t ← take
        blockEntries blockNode t.start size
      else absent block anchor tag start scalar
    | .blockMappingStart =>
      if block then mapping do
        let t ← take
        blockPairs flatNode t.start size
      else absent block anchor tag start scalar
    | _ => absent block anchor tag start scalar
where
  /-- A node of which only the anchor or the tag is there. -/
  absent (block : Bool) (anchor tag : Option Text) (start : Mark) (scalar : Node → Build Node) :
      Build Node := do
    if anchor.isSome || tag.isSome then
      scalar (.scalar (tagOr tag (if tag == some "!" || tag.isNone then "null" else "str")) [] start)
    else
      let kind : Text := if block then "block" else "flow"
      failAt (some ⟨"while parsing a " ++ kind ++ " node", some start⟩) fun found =>
        "expected the node content, but found " ++ found

/-- The handles of tags that need no directive. -/
def defaultHandles : List (Text × Text) := [("!", "!"), ("!!", tagStart)]

/-- The directives before a document. -/
def directives : Nat → Bool → Build Unit
  | 0, _ => return ()
  | fuel + 1, versioned => do
    let t ← scan peekToken
    match t.kind with
    | .directive =>
      discard take
      directives fuel versioned
    | .versionDirective major =>
      discard take
      if versioned then throw (.misplaced none "found duplicate YAML directive" t.start)
      if major != 1 then
        throw (.misplaced none "found incompatible YAML document (version 1.* is required)" t.start)
      directives fuel true
    | .tagDirective handle beginning =>
      discard take
      if ((← get).handles.lookup handle).isSome then
        throw (.misplaced none ("duplicate tag handle " ++ Text.quote handle) t.start)
      modify fun b => { b with handles := (handle, beginning) :: b.handles }
      directives fuel versioned
    | _ => return ()

/-- Is the next token a directive? -/
def nextIsDirective : Build Bool := do
  match ← nextKind with
  | .directive => return true
  | .versionDirective _ => return true
  | .tagDirective _ _ => return true
  | _ => return false

/-- Steps over the marks for the end of a document. -/
def skipDocumentEnds : Nat → Build Unit
  | 0 => return ()
  | fuel + 1 => do
    if ← next [.documentEnd] then
      discard take
      skipDocumentEnds fuel

/-- The beginning of a further document, where it stands; nothing if the text ends here. -/
def documentStart? (fuel : Nat) : Build (Option Mark) := do
  skipDocumentEnds fuel
  if ← next [.streamEnd] then return none
  let start := (← scan peekToken).start
  modify fun b => { b with handles := [] }
  directives fuel false
  modify fun b => { b with handles := b.handles ++ defaultHandles }
  if !(← next [.documentStart]) then
    failAt none fun found => "expected '<document start>', but found " ++ found
  discard take
  return some start

/-- The only document of a text, if there is one. -/
def document (fuel : Nat) : Build (Option Node) := do
  let isExplicit ← if ← next [.documentStart, .streamEnd] then pure true else nextIsDirective
  let root ← do
    if isExplicit then
      match ← documentStart? fuel with
      | none => pure none
      | some _ =>
        if (← next [.documentStart, .documentEnd, .streamEnd]) || (← nextIsDirective) then
          pure (some (emptyScalar (← scan peekToken).start))
        else pure (some (← node true false fuel))
    else
      modify fun b => { b with handles := defaultHandles }
      pure (some (← node true false fuel))
  match root with
  | none => return none
  | some n =>
    if ← next [.documentEnd] then discard take
    if let some m ← documentStart? fuel then
      throw (.misplaced (some ⟨"expected a single document in the stream", some n.mark⟩)
        "but found another document" m)
    return some n

end Build

/-- A character that documents may hold. -/
def isPrintable (c : Char) : Bool :=
  let n := c.toNat
  n == 9 || n == 10 || n == 13 || (0x20 ≤ n && n ≤ 0x7E) || n == 0x85 ||
    (0xA0 ≤ n && n ≤ 0xD7FF) || (0xE000 ≤ n && n ≤ 0xFFFD) || 0x10000 ≤ n

/-- The tree of the only document in a text, if there is one. -/
def readNode (t : Text) : Except Fault (Option Node) :=
  let good := t.takeWhile isPrintable
  match t.drop good.length with
  | c :: _ => .error (.unprintable c good.length)
  | [] =>
    match (Build.document (t.length + 10)).run { scanner := { rest := t } } with
    | .ok n _ => .ok n
    | .error f _ => .error f

end OutlinePage.Yaml
