import OutlinePage.Markdown.Node

/-!
# The tree as HTML

Line breaks go around the elements that stand on their own, characters with a meaning in HTML are
written as entities, and the stored pieces of HTML are put in.
-/

namespace OutlinePage.Markdown

namespace Node

/-- Puts line breaks around the elements that stand on their own. -/
def layOut : Node → Node
  | ⟨tag, attributes, isAtomic, text, children, tail⟩ =>
    let isOpen := isBlockTag tag && tag != "code" && tag != "pre"
    let startsBlock := match children with
      | c :: _ => isBlockTag c.tag
      | [] => false
    { tag, attributes, isAtomic
      text := if isOpen && startsBlock && Run.isBlank text then "\n" else text
      children := if isOpen then layOutEach children else children
      tail := if Run.isBlank tail then "\n" else tail }
where
  layOutEach : List Node → List Node
    | [] => []
    | c :: cs => (if isBlockTag c.tag then layOut c else c) :: layOutEach cs

/-- A line ends after each line break, and a block of code ends with one. -/
def finish : Node → Node
  | ⟨tag, attributes, isAtomic, text, children, tail⟩ =>
    let tail := if tag == "br" then .char '\n' :: (if Run.isBlank tail then [] else tail) else tail
    let children := finishEach children
    let children := match children with
      | c :: cs =>
        if tag == "pre" && c.tag == "code" && c.children.isEmpty then
          { c with text := Run.stripEnd c.text ++ [.char '\n'] } :: cs
        else children
      | [] => []
    { tag, attributes, isAtomic, text, children, tail }
where
  finishEach : List Node → List Node
    | [] => []
    | c :: cs => finish c :: finishEach cs

end Node

namespace Html

/-- Characters that stood for themselves are plain characters again. -/
def plain (r : Run) : Run := r.map fun
  | .literal c => .char c
  | g => g

/-- Does an entity's name and its semicolon come first? -/
def startsEntity (r : Run) : Bool :=
  let closes (digit : Char → Bool) (r : Run) : Bool :=
    let name := r.takeWhile (Glyph.satisfies digit)
    !name.isEmpty && Run.startsWith ";" (r.drop name.length)
  let isHex (c : Char) : Bool := c.isDigit || "abcdefABCDEF".toList.contains c
  match r with
  | g :: rest =>
    if g.is '#' then
      closes Char.isDigit rest ||
        (Run.startsWith "x" rest || Run.startsWith "X" rest) && closes isHex (rest.drop 1)
    else closes Text.isAlnum r
  | [] => false

/-- Text as it stands in HTML. The `&` of an entity is kept. -/
def escape (quotes : Bool) : Run → Run
  | [] => []
  | g :: r =>
    let rest := escape quotes r
    if g.is '&' then
      if startsEntity r then g :: rest else ("&amp;" : Run) ++ rest
    else if g.is '<' then ("&lt;" : Run) ++ rest
    else if g.is '>' then ("&gt;" : Run) ++ rest
    else if quotes && g.is '"' then ("&quot;" : Run) ++ rest
    else g :: rest

/-- The attributes in the order of their names. -/
def attributes (as : List (Text × Run)) : Run :=
  let sorted := as.mergeSort fun a b => !decide (b.1 < a.1)
  sorted.flatMap fun (name, value) =>
    (" " : Run) ++ Run.ofText name ++ ("=\"" : Run) ++ escape true (plain value) ++ ("\"" : Run)

/-- Tags of elements without content. -/
def isEmptyTag (tag : Text) : Bool :=
  (Text.split ' ' "area base basefont br col embed frame hr img input isindex").contains tag ||
    (Text.split ' ' "link meta param source track wbr").contains tag

/-- Does stored HTML stand on its own? -/
def isBlock (html : Run) : Bool :=
  if Run.startsWith "<" html then
    let r := html.drop 1
    let r := if Run.startsWith "/" r then r.drop 1 else r
    let name := r.takeWhile fun g => !(g.is ' ' || g.is '>')
    match Run.text? name with
    | some (c :: t) => c == '!' || c == '?' || c == '@' || c == '%' || isBlockTag (c :: t)
    | _ => false
  else false

/-- A paragraph around nothing but HTML that stands on its own. -/
def isWrapper (tag : Text) (text : Run) (children : List Node) : Bool :=
  match tag, text, children with
  | ['p'], [.stored html], [] => isBlock html
  | _, _, _ => false

/-- An element as HTML, with the text after it. Of a paragraph around HTML that stands on its own
only the inside is written. -/
def render : Node → Run
  | ⟨tag, as, _, text, children, tail⟩ =>
    let start := ("<" : Run) ++ Run.ofText tag ++ attributes as
    let inside := escape false (if tag == "code" then text else plain text) ++ renderEach children
    let element :=
      if isEmptyTag tag then start ++ (" />" : Run)
      else if isWrapper tag text children then inside
      else start ++ (">" : Run) ++ inside ++ ("</" : Run) ++ Run.ofText tag ++ (">" : Run)
    element ++ escape false (plain tail)
where
  renderEach : List Node → Run
    | [] => []
    | c :: cs => render c ++ renderEach cs

/-- The text of a run with the stored HTML in its places. -/
def expand : Run → Text
  | [] => []
  | .char c :: r => c :: expand r
  | .literal c :: r => c :: expand r
  | .stored html :: r => expand html ++ expand r

end Html

end OutlinePage.Markdown
