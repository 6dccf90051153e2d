import OutlinePage.Markdown.PipeTable

/-!
# Blocks

A text is a row of blocks with blank lines between them. Each rule below knows one kind of block: it
takes the next block, adds what it makes of it to the element at hand, and may put lines back to be
read again. The rules are tried in a fixed order.
-/

namespace OutlinePage.Markdown

/-- Where a named link leads. -/
structure Target where
  address : Run
  title : Option Run
deriving Inhabited

/-- The named links of a text; a later definition of a name comes first. -/
abbrev Names := List (Run × Target)

/-- What surrounds the blocks that are being read. -/
inductive Surroundings where
  | page
  /-- An item of a list without blank lines between its items. -/
  | tightList
  /-- An item of a list with blank lines between its items. -/
  | looseList
  | quote
  /-- An indented block of a list whose indentation was taken off. -/
  | shifted
deriving DecidableEq, Repr

/-- An element under construction with the blocks that are still to be read. -/
structure Progress where
  node : Node
  blocks : List Run
  names : Names

/-- Reads blocks into an element. -/
abbrev Reader := Surroundings → Node → List Run → Names → Node × Names

/-- Reads the next block if it is of the rule's kind. -/
abbrev Rule := Reader → Surroundings → Run → Progress → Option Progress

namespace Block

/-- Four spaces at the beginning. -/
def isIndented (r : Run) : Bool := Run.countStart ' ' r ≥ 4

/-- The lines up to the first that is neither indented nor blank, without their indentation, and the
other lines. -/
def shiftLines : List Run → List Run × List Run
  | [] => ([], [])
  | l :: ls =>
    if isIndented l then
      let (code, rest) := shiftLines ls
      (l.drop 4 :: code, rest)
    else if Run.isBlank l then
      let (code, rest) := shiftLines ls
      ([] :: code, rest)
    else ([], l :: ls)

/-- Takes the indentation of the given level off each line that has it. -/
def shift (level : Nat) (r : Run) : Run :=
  Run.unlines ((Run.lines r).map fun l => if Run.countStart ' ' l ≥ 4 * level then l.drop (4 * level) else l)

/-- Puts a block back, unless it is empty. -/
def putBack (r : Run) (p : Progress) : Progress :=
  if r.isEmpty then p else { p with blocks := r :: p.blocks }

/-- Reads a block into the element right away, unless it is empty. -/
def readFirst (read : Reader) (s : Surroundings) (r : Run) (p : Progress) : Progress :=
  if r.isEmpty then p
  else
    let (node, names) := read s p.node [r] p.names
    { p with node, names }

/-- Adds text to the code at the end of the element. -/
def appendCode (n : Node) (r : Run) : Option Node := do
  let last ← n.last?
  let code ← last.code?
  return n.setLast (last.setCode { code with text := code.text ++ r })

/-- An empty line. Inside code it is kept. -/
def blankLine : Rule := fun _ _ block p =>
  let add (filler : Run) (p : Progress) : Progress :=
    { p with node := (appendCode p.node filler).getD p.node }
  match block with
  | [] => some (add "\n\n" p)
  | g :: r => if g.is '\n' then some (add "\n" (putBack r p)) else none

/-- The place of the innermost list or item at the element's end that has the given level of
indentation: its level, how many steps down it is, and the place itself. -/
def descend (indent : Nat) : Nat → Nat → Nat → Node → Nat × Nat × Node
  | 0, level, depth, n => (level, depth, n)
  | fuel + 1, level, depth, n =>
    match n.last? with
    | some child =>
      if indent > level && child.isList then descend indent fuel (level + 1) (depth + 1) child
      else if indent > level && child.isItem then descend indent fuel level (depth + 1) child
      else (level, depth, n)
    | none => (level, depth, n)

/-- Changes the element that is `depth` steps down along the last children. -/
def updateLast (f : Node → Node × Names) : Nat → Node → Names → Node × Names
  | 0, n, _ => f n
  | depth + 1, n, names =>
    match n.last? with
    | some child =>
      let (child, names) := updateLast f depth child names
      (n.setLast child, names)
    | none => (n, names)

/-- An indented block after a list belongs to the last item of the list. -/
def listContinuation : Rule := fun read s block p =>
  let afterList := match p.node.last? with
    | some n => n.isList
    | none => false
  if isIndented block && s != .shifted && (p.node.isItem || afterList) then
    let indent := Run.countStart ' ' block / 4
    let start := if s == .tightList then 1 else 0
    let (level, depth, _) := descend indent (2 * indent + 2) start 0 p.node
    let block := shift level block
    let readIn (n : Node) (blocks : List Run) := read .shifted n blocks p.names
    let underLast (n : Node) (f : Node → Node × Names) : Node × Names := updateLast f 1 n p.names
    let place (n : Node) : Node × Names :=
      match n.last? with
      | some last =>
        if n.isItem then readIn n [block]
        else if last.isItem then underLast n fun item => readIn item.wrapText (Run.paragraphs block)
        else
          let (item, names) := readIn { tag := "li" } [block]
          (n.push item, names)
      | none =>
        if n.isItem then readIn n [block]
        else
          let (item, names) := readIn { tag := "li" } [block]
          (n.push item, names)
    let (node, names) :=
      if p.node.isItem then
        if afterList then underLast p.node fun l => readIn l [block] else readIn p.node [block]
      else updateLast place depth p.node p.names
    some { p with node, names }
  else none

/-- An indented block is code. -/
def indentedCode : Rule := fun _ _ block p =>
  if isIndented block then
    let (code, rest) := shiftLines (Run.lines block)
    let text := Run.escapeCode (Run.stripEnd (Run.unlines code)) ++ ("\n" : Run)
    let node := match appendCode p.node (("\n" : Run) ++ text) with
      | some n => n
      | none =>
        p.node.push { tag := "pre", children := [{ tag := "code", isAtomic := true, text := text }] }
    some (putBack (Run.unlines rest) { p with node })
  else none

/-- A table. -/
def table : Rule := fun _ _ block p =>
  (PipeTable.table? (Run.lines block)).map fun t => { p with node := p.node.push t }

/-- The text of a heading after its hashes, and what follows the line. A backslash hides the
character after it. -/
def headingText : Nat → Run → Option (Run × Run)
  | 0, _ => none
  | fuel + 1, r =>
    match r.dropWhile (Glyph.is '#'), r with
    | [], _ => some ([], [])
    | g :: after, r =>
      if g.is '\n' then some ([], after)
      else match r with
        | [] => some ([], [])
        | c :: rest =>
          if c.is '\\' then
            match rest with
            | d :: rest =>
              if d.is '\n' then none
              else (headingText fuel rest).map fun (t, a) => (c :: d :: t, a)
            | [] => none
          else (headingText fuel rest).map fun (t, a) => (c :: t, a)

/-- The first line that is a heading: the text before it, its level, its text and the text after
it. -/
def findHeading : List Run → Option (List Run × Nat × Run × Run)
  | [] => none
  | l :: ls =>
    let level := min 6 (Run.countStart '#' l)
    let here := if level == 0 then none
      else
        let r := Run.unlines (l.drop level :: ls)
        headingText (r.length + 1) r
    match here with
    | some (text, after) => some ([], level, text, after)
    | none => (findHeading ls).map fun (before, found) => (l :: before, found)

/-- A line that begins with hashes is a heading. -/
def hashHeading : Rule := fun read s block p =>
  (findHeading (Run.lines block)).map fun (before, level, text, after) =>
    let p := readFirst read s (Run.unlines before) p
    let heading : Node := { tag := 'h' :: Text.ofNat level, text := Run.strip text }
    let after := if s == .looseList then shift 1 after else after
    putBack after { p with node := p.node.push heading }

/-- Is the line an underline, of the heading's first or second level? -/
def underline? (l : Run) : Option Nat :=
  let marks := l.takeWhile (Glyph.satisfies fun c => c == '=' || c == '-')
  if marks.isEmpty || !(l.drop marks.length).all (Glyph.is ' ') then none
  else some (if Run.startsWith "=" l then 1 else 2)

/-- An underlined first line is a heading. -/
def underlinedHeading : Rule := fun _ _ block p =>
  match Run.lines block with
  | title :: line :: rest =>
    (underline? line).map fun level =>
      let heading : Node := { tag := 'h' :: Text.ofNat level, text := Run.strip title }
      putBack (Run.unlines rest) { p with node := p.node.push heading }
  | _ => none

/-- The rest of a line is marks with at most two spaces between them, and spaces at its end;
`gap` spaces stand right before it. -/
def isRuleTail (mark : Char) : Nat → Run → Bool
  | _, [] => true
  | gap, g :: r =>
    if g.is ' ' then isRuleTail mark (gap + 1) r
    else g.is mark && gap ≤ 2 && isRuleTail mark 0 r

/-- Is the line a rule: three or more equal marks? -/
def isRule (l : Run) : Bool :=
  let indent := Run.countStart ' ' l
  let l := l.drop indent
  let of (mark : Char) : Bool :=
    Run.startsWith [mark] l && l.countP (Glyph.is mark) ≥ 3 && isRuleTail mark 0 l
  indent ≤ 3 && (of '-' || of '_' || of '*')

/-- A line of marks is a rule. -/
def rule : Rule := fun read s block p =>
  let lines := Run.lines block
  let before := lines.takeWhile (!isRule ·)
  if before.length < lines.length then
    let newline := Glyph.is '\n'
    let above := ((Run.unlines before).reverse.dropWhile newline).reverse
    let below := (Run.unlines (lines.drop (before.length + 1))).dropWhile newline
    let p := readFirst read s above p
    some (putBack below { p with node := p.node.push { tag := "hr" } })
  else none

/-- What begins an item of a list. -/
inductive Bullet where
  | number
  | mark
deriving DecidableEq

/-- The bullet at the beginning of a line with between `lo` and `hi` spaces before it, and the text
after it. -/
def item? (lo hi : Nat) (l : Run) : Option (Bullet × Run) :=
  let indent := Run.countStart ' ' l
  let l := l.drop indent
  let text? (bullet : Bullet) (r : Run) : Option (Bullet × Run) :=
    let spaces := Run.countStart ' ' r
    if spaces == 0 then none else some (bullet, r.drop spaces)
  if indent < lo || indent > hi then none
  else match l with
    | g :: r =>
      if g.is '*' || g.is '+' || g.is '-' then text? .mark r
      else
        let digits := (l.takeWhile (Glyph.satisfies Text.isDigit)).length
        if digits > 0 && Run.startsWith "." (l.drop digits) then text? .number (l.drop (digits + 1))
        else none
    | [] => none

/-- Adds a line to the last text. -/
def extendLast (texts : List Run) (l : Run) : List Run :=
  match texts.getLast? with
  | some t => texts.dropLast ++ [t ++ .char '\n' :: l]
  | none => [l]

/-- The items among the lines of a block. An indented item stands on its own; any other line belongs
to the item before it. -/
def items (lines : List Run) : List Run :=
  lines.foldl (fun texts l =>
    match item? 0 3 l with
    | some (_, text) => texts ++ [text]
    | none =>
      let lastIndented := match texts.getLast? with
        | some t => isIndented t
        | none => false
      if (item? 4 7 l).isSome && !lastIndented then texts ++ [l] else extendLast texts l) []

/-- Reads items into a list. An indented one goes into the item before it. -/
def readItems (read : Reader) : List Run → Node × Names → Node × Names
  | [], r => r
  | text :: texts, (list, names) =>
    let next :=
      if isIndented text then
        updateLast (fun item => read .tightList item [text] names) 1 list names
      else
        let (item, names) := read .tightList { tag := "li" } [text] names
        (list.push item, names)
    readItems read texts next

/-- The last item of a list once a blank line has followed it: its texts are paragraphs. -/
def loosenItem (item : Node) : Node :=
  let item := item.wrapText
  match item.last? with
  | some child =>
    if child.tail.isEmpty then item
    else (item.setLast { child with tail := [] }).push { tag := "p", text := Run.stripStart child.tail }
  | none => item

/-- A list whose items have the given bullet. After another list, it continues that one. -/
def list (bullet : Bullet) (tag : Text) : Rule := fun read _ block p =>
  let first := match Run.lines block with
    | l :: _ => (item? 0 3 l).map (·.1)
    | [] => none
  if first == some bullet then
    let texts := items (Run.lines block)
    let fresh (list : Node) : Node × Names := readItems read texts (list, p.names)
    let (node, names) := match p.node.last? with
      | some sibling =>
        if sibling.isList then
          let (list, names) := updateLast (fun item => (loosenItem item, p.names)) 1 sibling p.names
          let (item, names) := read .looseList { tag := "li" } (texts.take 1) names
          let (list, names) := readItems read (texts.drop 1) (list.push item, names)
          (p.node.setLast list, names)
        else if p.node.isList then fresh p.node
        else
          let (list, names) := fresh { tag }
          (p.node.push list, names)
      | none =>
        if p.node.isList then fresh p.node
        else
          let (list, names) := fresh { tag }
          (p.node.push list, names)
    some { p with node, names }
  else none

/-- A quoted line without its mark. -/
def quoted? (l : Run) : Option Run :=
  let indent := Run.countStart ' ' l
  match l.drop indent with
  | g :: r =>
    if indent ≤ 3 && g.is '>' then some (if Run.startsWith " " r then r.drop 1 else r) else none
  | [] => none

/-- A line inside a quote without the mark, if it has one. -/
def unquote (l : Run) : Run :=
  if Run.strip l == (">" : Run) then [] else (quoted? l).getD l

/-- Lines that begin with `>`, and those after them, are a quote. -/
def quote : Rule := fun read s block p =>
  let lines := Run.lines block
  let before := lines.takeWhile fun l => (quoted? l).isNone
  if before.length < lines.length then
    let (node, names) := read s p.node [Run.unlines before] p.names
    let inside := Run.unlines ((lines.drop before.length).map unquote)
    let inside := if before.isEmpty then inside else .char '\n' :: inside
    let readQuote (n : Node) := read .quote n (Run.paragraphs inside) names
    let isQuote := match node.last? with
      | some n => n.isOneOf ["blockquote"]
      | none => false
    let (node, names) :=
      if isQuote then updateLast readQuote 1 node names
      else
        let (q, names) := readQuote { tag := "blockquote" }
        (node.push q, names)
    some { p with node, names }
  else none

/-- The title at the end of a link's definition. -/
def title? (l : Run) : Option Run :=
  let l := (l.reverse.dropWhile (Glyph.is ' ')).reverse
  let inside := (l.drop 1).dropLast
  match l.head?, l.getLast? with
  | some a, some b =>
    if l.length < 2 then none
    else if (a.is '"' && b.is '"') || (a.is '\'' && b.is '\'') || (a.is '(' && b.is ')') then some inside
    else none
  | _, _ => none

/-- The end of a definition after the address: the title on the same or the next line, and the lines
that follow. -/
def definitionEnd? (line : Run) (rest : List Run) : Option (Option Run × List Run) :=
  let spaces := Glyph.is ' '
  let line := line.dropWhile spaces
  let here : Option (Option Run × List Run) :=
    if line.isEmpty then some (none, rest)
    else (title? line).map fun t => (some t, rest)
  match line, rest with
  | [], next :: after =>
    let next := next.dropWhile spaces
    match title? next with
    | some t => some (some t, after)
    | none => if next.isEmpty then some (none, after) else here
  | _, _ => here

/-- Tries to end the address after `k` glyphs, then after fewer. -/
def addressEnd? (line : Run) (rest : List Run) : Nat → Option (Run × Option Run × List Run)
  | 0 => none
  | k + 1 =>
    match definitionEnd? (line.drop (k + 1)) rest with
    | some (title, after) => some (line.take (k + 1), title, after)
    | none => addressEnd? line rest k

/-- A name in square brackets and a colon at the beginning of the lines, with what follows. -/
def definedName? (lines : List Run) : Option (Run × Run) :=
  let r := Run.unlines lines
  let indent := Run.countStart ' ' r
  if indent ≤ 3 && Run.startsWith "[" (r.drop indent) then
    let r := r.drop (indent + 1)
    let name := r.takeWhile fun g => !(g.is '[' || g.is ']')
    let rest := r.drop name.length
    if Run.startsWith "]:" rest then some (name, rest.drop 2) else none
  else none

/-- The definition of a named link at the beginning of the lines, and the lines after it. -/
def definition? (lines : List Run) : Option (Run × Target × List Run) := do
  let (name, rest) ← definedName? lines
  let spaces := Glyph.is ' '
  let rest := rest.dropWhile spaces
  let rest := if Run.startsWith "\n" rest then (rest.drop 1).dropWhile spaces else rest
  match Run.lines rest with
  | line :: after =>
    let (address, title, after) ←
      addressEnd? line after (line.takeWhile fun g => !g.isBlank).length
    let address := address.dropWhile (Glyph.is '<')
    let address := (address.reverse.dropWhile (Glyph.is '>')).reverse
    let title := title.filter (!·.isEmpty)
    return (name, { address, title }, after)
  | [] => none

/-- The first definition among the lines: the lines before it, the definition and the lines after
it. -/
def findDefinition : List Run → Option (List Run × Run × Target × List Run)
  | [] => none
  | l :: ls =>
    match definition? (l :: ls) with
    | some (name, target, after) => some ([], name, target, after)
    | none => (findDefinition ls).map fun (before, found) => (l :: before, found)

/-- A name by which links are found: case does not matter. -/
def lower (r : Run) : Run := r.map fun
  | .char c => .char c.toLower
  | g => g

/-- The definition of a named link. -/
def definition : Rule := fun _ _ block p =>
  (findDefinition (Run.lines block)).map fun (before, name, target, after) =>
    let newline := Glyph.is '\n'
    let p := { p with names := (lower (Run.strip name), target) :: p.names }
    let after := Run.unlines after
    let p := if Run.isBlank after then p else putBack (after.dropWhile newline) p
    let before := Run.unlines before
    if Run.isBlank before then p else putBack (before.reverse.dropWhile newline).reverse p

/-- Any other block is a paragraph. In an item of a tight list it is text of the item. -/
def paragraph : Rule := fun _ s block p =>
  if Run.isBlank block then some p
  else if s == .tightList then
    match p.node.last? with
    | some child =>
      some { p with node := p.node.setLast { child with tail := child.tail ++ .char '\n' :: block } }
    | none =>
      let text := Run.stripStart block
      let text := if p.node.text.isEmpty then text else p.node.text ++ .char '\n' :: text
      some { p with node := { p.node with text } }
  else some { p with node := p.node.push { tag := "p", text := Run.stripStart block } }

/-- The rules in the order in which they are tried. -/
def rules : List Rule :=
  [blankLine, listContinuation, indentedCode, table, hashHeading, underlinedHeading, rule,
    list .number "ol", list .mark "ul", quote, definition, paragraph]

/-- Reads blocks into an element. -/
def read : Nat → Reader
  | 0, _, node, _, names => (node, names)
  | _ + 1, _, node, [], names => (node, names)
  | fuel + 1, s, node, block :: blocks, names =>
    match rules.findSome? fun rule => rule (read fuel) s block { node, blocks, names } with
    | some p => read fuel s p.node p.blocks p.names
    | none => (node, names)

end Block

/-- The elements of a text, inside one that holds them all, and its named links. -/
def readBlocks (r : Run) : Node × Names :=
  Block.read (4 * r.length + 50) .page { tag := "div" } (Run.paragraphs r) []

end OutlinePage.Markdown
