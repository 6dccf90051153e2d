import OutlinePage.Markdown.Glyph

/-!
# Raw HTML

A block of HTML that begins at the beginning of a line is kept as it is, up to the tag that closes
it. Tags inside a line stay in the text.
-/

namespace OutlinePage.Markdown.RawHtml

/-- What stands at a place of the text. -/
inductive Token where
  /-- An opening tag. -/
  | opening (name : Text)
  /-- A tag that opens and closes at once. -/
  | empty (name : Text)
  /-- A closing tag. -/
  | closing (name : Text)
  /-- A comment, a declaration or the like, which stands on its own. -/
  | remark (html : Run)
  /-- Something that goes to the text as the given run. -/
  | inline (html : Run)
  /-- Plain text. -/
  | data
deriving Repr, Inhabited

/-- How the text is taken apart: the work done so far. -/
structure State where
  /-- The text without the blocks of HTML. -/
  out : Run := []
  /-- The piece that was added last to `out`. -/
  last : Run := []
  /-- The block of HTML that is being read. -/
  block : Run := []
  /-- The names of the tags that are open in the block. -/
  stack : List Text := []
  /-- Inside a block of HTML. -/
  inBlock : Bool := false
  /-- In the rest of the line after a block of HTML. -/
  inTail : Bool := false
  /-- The glyphs read of the current line. -/
  line : Run := []
  /-- A tag could not be read. -/
  refused : Bool := false

namespace State

/-- Adds a piece to the text. -/
def emit (s : State) (piece : Run) : State := { s with out := s.out ++ piece, last := piece }

/-- Stores HTML. -/
def emitStored (s : State) (html : Run) : State := s.emit [.stored html]

/-- Is the place at the beginning of a line? At most three spaces may precede. -/
def atLineStart (s : State) : Bool := s.line.length ≤ 3 && Run.isBlank s.line

/-- Notes what was read. -/
def read (s : State) (raw : Run) : State :=
  let after := raw.reverse.takeWhile (!·.is '\n')
  { s with
    line := if after.length == raw.length then s.line ++ raw else after.reverse }

end State

/-- Two line ends in a row, perhaps after spaces. -/
def beginsWithBlankLine (r : Run) : Bool :=
  let r := r.dropWhile (Glyph.is ' ')
  Run.startsWith "\n" r && Run.startsWith "\n" ((r.drop 1).dropWhile (Glyph.is ' '))

/-- Reads plain text. -/
def onData (s : State) (raw : Run) : State :=
  let s := if raw.any (Glyph.is '\n') then { s with inTail := false } else s
  if s.inBlock then { s with block := s.block ++ raw } else s.emit raw

/-- Reads something that stands on its own, if it is a block of HTML by itself. -/
def onEmpty (s : State) (html : Run) (isBlock : Bool) (after : Run) : State :=
  if s.inBlock || s.inTail then { s with block := s.block ++ html }
  else if s.atLineStart && isBlock then
    let followed := beginsWithBlankLine after
    let html := if followed then html ++ [.char '\n'] else html
    let s := if followed then s else { s with inTail := true }
    let ends := s.last.reverse.takeWhile (Glyph.is '\n')
    let s := if ends.length == 1 then s.emit "\n" else s
    (s.emitStored html).emit "\n\n"
  else s.emit html

/-- Reads an opening tag. -/
def onOpening (s : State) (name : Text) (raw after : Run) : State :=
  let atStart := s.atLineStart || s.inTail
  if name == "hr" && atStart then onEmpty s raw true after
  else if isBlockTag name && atStart || s.inBlock then
    let s := if s.inBlock then s else { s.emit "\n" with inBlock := true }
    { s with stack := name :: s.stack, block := s.block ++ raw }
  else onData s raw

/-- The open tags after one of them is closed together with those opened since. -/
def closeTag (name : Text) (stack : List Text) : List Text :=
  if stack.contains name then (stack.dropWhile (· != name)).drop 1 else stack

/-- Reads a closing tag. -/
def onClosing (s : State) (name : Text) (raw after : Run) : State :=
  if s.inBlock then
    let s := { s with block := s.block ++ raw, stack := closeTag name s.stack }
    if s.stack.isEmpty then
      let s := if beginsWithBlankLine after then { s with block := s.block ++ "\n" }
        else { s with inTail := true }
      { (s.emitStored s.block).emit "\n\n" with block := [], inBlock := false }
    else s
  else onData s raw

/-- The lower-case text of the characters in a run. -/
def nameOf (r : Run) : Text := (r.filterMap Glyph.char?).map Char.toLower

/-- White space in tags. -/
def isTagSpace (g : Glyph) : Bool := g.isBlank

/-- Ends a tag's name. -/
def endsName (g : Glyph) : Bool :=
  match g with
  | .char c => "`\t\n\r\x0c />\x00".toList.contains c
  | _ => false

/-- How the inside of an opening tag ends. -/
inductive TagEnd where
  /-- With `>`, or with `/>` if `isEmpty`; `length` glyphs were read. -/
  | closed (length : Nat) (isEmpty : Bool)
  /-- With something that no tag may hold. -/
  | broken (length : Nat)
  /-- Not at all. -/
  | missing

/-- Reads the value of an attribute after `=`: the number of glyphs, if it ends. -/
def valueLength? (r : Run) : Option Nat :=
  match r with
  | [] => some 0
  | g :: rest =>
    if g.is '"' || g.is '\'' then
      let inside := rest.takeWhile (· != g)
      if inside.length < rest.length then some (inside.length + 2) else none
    else some (r.takeWhile fun x => !(x.is '`' || x.is '>' || isTagSpace x)).length

/-- The value of an attribute after `=`, without its quotes. A bare value goes on to the next space,
over a backtick as well. -/
def valueOf (r : Run) : Run :=
  match r with
  | [] => []
  | g :: rest =>
    if g.is '"' || g.is '\'' then rest.takeWhile (· != g)
    else r.takeWhile fun x => !(x.is '>' || isTagSpace x)

/-- Reads the attributes of an opening tag, `n` glyphs into it: how the tag ends, and the values
that were met. -/
def readAttributes : Nat → Nat → Run → TagEnd × List Run
  | 0, _, _ => (.missing, [])
  | fuel + 1, n, r =>
    match r with
    | [] => (.missing, [])
    | g :: rest =>
      if g.is '>' then (.closed (n + 1) false, [])
      else if g.is '/' then
        if Run.startsWith ">" rest then (.closed (n + 2) true, [])
        else readAttributes fuel (n + 1) rest
      else if isTagSpace g then readAttributes fuel (n + 1) rest
      else if g.is '`' then (.broken n, [])
      else
        let name := (r.drop 1).takeWhile fun x => !(isTagSpace x || x.is '/' || x.is '=' || x.is '>')
        let r := r.drop (name.length + 1)
        let n := n + name.length + 1
        let spaces := (r.takeWhile isTagSpace).length
        if Run.startsWith "=" (r.drop spaces) then
          let skipped := spaces + Run.countStart '=' (r.drop spaces)
          let skipped := skipped + ((r.drop skipped).takeWhile isTagSpace).length
          match valueLength? (r.drop skipped) with
          | none => (.missing, [])
          | some k =>
            let (ending, values) := readAttributes fuel (n + skipped + k) (r.drop (skipped + k))
            (ending, valueOf (r.drop skipped) :: values)
        else readAttributes fuel n r

/-- An opening tag. -/
structure OpeningTag where
  name : Text
  ending : TagEnd
  /-- The values of its attributes. -/
  values : List Run

/-- Does an opening tag begin here? -/
def beginsTag : Run → Bool
  | g :: h :: _ => g.is '<' && h.satisfies Text.isLetter
  | _ => false

/-- The opening tag at the beginning of a run. -/
def openingTag (r : Run) : OpeningTag :=
  let name := (r.drop 1).takeWhile (!endsName ·)
  match readAttributes (r.length + 1) (name.length + 1) (r.drop (name.length + 1)) with
  | (ending, values) => { name := nameOf name, ending, values }

/-- The digits that the number of a character may have at most. -/
def maxDigits : Nat := 4300

/-- Is there a reference to a character by a number with too many digits? -/
def hasOverlongNumber : Run → Bool
  | [] => false
  | g :: r =>
    Run.startsWith "&#" (g :: r) &&
        maxDigits < ((r.drop 1).takeWhile (Glyph.satisfies Char.isDigit)).length ||
      hasOverlongNumber r

/-- Does an opening tag begin here that cannot be read? References in its values are resolved. -/
def isRefused (r : Run) : Bool :=
  beginsTag r &&
    match openingTag r with
    | { ending := .missing, .. } => false
    | { values, .. } => values.any hasOverlongNumber

/-- The number of glyphs up to the first place where the characters stand. -/
def find? (t : Text) : Run → Option Nat
  | [] => if t.isEmpty then some 0 else none
  | g :: r => if Run.startsWith t (g :: r) then some 0 else (find? t r).map (· + 1)

/-- A tag that never ends: text up to the next `>`, else up to the next `<`. -/
def unfinished (r : Run) : Nat :=
  match find? ">" (r.drop 1) with
  | some k => k + 2
  | none => match find? "<" (r.drop 1) with
    | some k => k + 1
    | none => 1

/-- The end of a comment: the glyphs before it, and its own length. White space may stand before the
`>`. -/
def commentEnd? : Run → Option (Nat × Nat)
  | [] => none
  | g :: r =>
    let tail := (r.drop 1).dropWhile Glyph.isBlank
    if g.is '-' && Run.startsWith "-" r && Run.startsWith ">" tail then
      some (0, r.length + 1 - tail.length + 1)
    else (commentEnd? r).map fun (k, n) => (k + 1, n)

/-- A character of a closing tag's name. -/
def isClosingChar (c : Char) : Bool :=
  Text.isAlnum c || c == '-' || c == '.' || c == ':' || c == '_'

/-- Something between `<` and the next `>` that is taken as a comment, after `skip` glyphs. -/
def bogusComment (skip : Nat) (r : Run) : Token × Nat :=
  match find? ">" (r.drop skip) with
  | none => (.data, unfinished r)
  | some k =>
    (.remark (("<!--" : Run) ++ (r.drop skip).take k ++ ("-->" : Run)), skip + k + 1)

/-- The closing tag at the beginning of a run. -/
def closingTag (r : Run) : Token × Nat :=
  match find? ">" r with
  | none => (.data, unfinished r)
  | some k =>
    let inside := ((r.take k).drop 2).dropWhile isTagSpace
    let name := inside.takeWhile (Glyph.satisfies isClosingChar)
    if (match name with | g :: _ => g.satisfies Text.isLetter | [] => false) then
      (.closing (nameOf name), k + 1)
    else if k == 2 then (.inline [], 3)
    else bogusComment 2 r

/-- A character reference at the beginning of a run. One without its semicolon gets it. -/
def reference? (r : Run) : Option (Run × Nat) :=
  if Run.startsWith "&#" r then
    let body := r.drop 2
    let isHex := Run.startsWith "x" body || Run.startsWith "X" body
    let isDigit : Char → Bool := fun c =>
      c.isDigit || isHex && ("abcdefABCDEF".toList.contains c)
    let digits := (body.drop (if isHex then 1 else 0)).takeWhile (Glyph.satisfies isDigit)
    let name := body.take (digits.length + if isHex then 1 else 0)
    let after := body.drop name.length
    match digits, after with
    | [], _ => none
    | _, [] => none
    | _, g :: _ =>
      if !isHex && g.satisfies (fun c => "abcdefABCDEF".toList.contains c) then none
      else
        some (("&#" : Run) ++ name ++ (";" : Run), 2 + name.length + if g.is ';' then 1 else 0)
  else none

/-- What stands at the beginning of a run, and how many glyphs it takes. -/
def token (s : State) (r : Run) : Token × Nat :=
  let special := s.atLineStart || s.inTail
  match r with
  | [] => (.data, 0)
  | g :: _ =>
    if g.is '<' then
      if beginsTag r then
        match openingTag r with
        | { name, ending := .closed n false, .. } => (.opening name, n)
        | { name, ending := .closed n true, .. } => (.empty name, n)
        | { ending := .broken n, .. } => (.data, n)
        | { ending := .missing, .. } => (.data, unfinished r)
      else if Run.startsWith "</" r then closingTag r
      else if Run.startsWith "<!--" r then
        match commentEnd? (r.drop 4) with
        | none => (.data, unfinished r)
        | some (k, n) =>
          (.remark (("<!--" : Run) ++ (r.drop 4).take k ++ ("-->" : Run)), 4 + k + n)
      else if Run.startsWith "<?" r then
        match find? "?>" (r.drop 2) with
        | some k => if special then (.remark (r.take (k + 4)), k + 4) else (.data, 2)
        | none => (.data, if special then unfinished r else 2)
      else if Run.startsWith "<!" r then
        if !special then (.data, 2)
        else if nameOf (r.take 9) == "<!doctype" then
          match find? ">" (r.drop 9) with
          | some k => (.remark (r.take (k + 10)), k + 10)
          | none => (.data, unfinished r)
        else bogusComment 2 r
      else (.data, 1)
    else if g.is '&' then
      match reference? r with
      | some (html, n) => (.inline html, n)
      | none => (.data, 1)
    else (.data, max 1 (r.takeWhile fun x => !(x.is '<' || x.is '&')).length)

/-- The contents of scripts and styles are not taken apart: the number of glyphs up to the tag that
closes it. -/
def verbatimLength (name : Text) : Run → Nat
  | [] => 0
  | g :: r =>
    if Run.startsWith "</" (g :: r) &&
        nameOf (((g :: r).drop 2).take name.length) == name then 0
    else verbatimLength name r + 1

/-- Takes the text apart. -/
def scan : Nat → State → Run → State
  | 0, s, _ => s
  | _ + 1, s, [] => s
  | fuel + 1, s, r =>
    let s := { s with refused := s.refused || isRefused r }
    let (t, n) := token s r
    let raw := r.take n
    let after := r.drop n
    match t with
    | .opening name =>
      let s := (onOpening s name raw after).read raw
      if s.inBlock && (name == "script" || name == "style") then
        let k := verbatimLength name after
        let inside := after.take k
        scan fuel ((onData s inside).read inside) (after.drop k)
      else scan fuel s after
    | .empty name => scan fuel ((onEmpty s raw (isBlockTag name) after).read raw) after
    | .closing name => scan fuel ((onClosing s name raw after).read raw) after
    | .remark html => scan fuel ((onEmpty s html true after).read raw) after
    | .inline html => scan fuel ((onEmpty s html false after).read raw) after
    | .data => scan fuel ((onData s raw).read raw) after

/-- Stores the blocks of HTML in a text, unless one of its tags cannot be read. A block that is
never closed goes to the end. -/
def store? (r : Run) : Option Run :=
  let s := scan (r.length + 1) {} r
  if s.refused then none
  else if s.block.isEmpty then some s.out
  else some (s.out ++ [.stored s.block])

end OutlinePage.Markdown.RawHtml
