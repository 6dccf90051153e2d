import OutlinePage.Markdown.Glyph

/-!
# The tree of a converted text

An element of the result holds a text before its first child, and each child is followed by a text
of its own, its tail.
-/

namespace OutlinePage.Markdown

/-- An element of the result with the text after it. -/
structure Node where
  tag : Text
  attributes : List (Text × Run) := []
  /-- The text is finished: no rule of Markdown looks at it. -/
  isAtomic : Bool := false
  /-- The text before the first child. -/
  text : Run := []
  children : List Node := []
  /-- The text after the element. -/
  tail : Run := []
deriving Repr, Inhabited

namespace Node

/-- Adds a child at the end. -/
def push (n child : Node) : Node := { n with children := n.children ++ [child] }

/-- The last child. -/
def last? (n : Node) : Option Node := n.children.getLast?

/-- The node with another last child. Nothing changes if there is none. -/
def setLast (n child : Node) : Node :=
  if n.children.isEmpty then n else { n with children := n.children.dropLast ++ [child] }

/-- Does the node have one of these tags? -/
def isOneOf (tags : List Text) (n : Node) : Bool := tags.contains n.tag

/-- A list, ordered or not. -/
def isList (n : Node) : Bool := n.isOneOf ["ul", "ol"]

/-- An item of a list. -/
def isItem (n : Node) : Bool := n.isOneOf ["li"]

/-- The code in a block of code. -/
def code? (n : Node) : Option Node :=
  if n.isOneOf ["pre"] then
    match n.children with
    | c :: _ => if c.isOneOf ["code"] then some c else none
    | [] => none
  else none

/-- The block of code with other code. -/
def setCode (n code : Node) : Node := { n with children := code :: n.children.drop 1 }

/-- A text at the beginning of an item becomes a paragraph. -/
def wrapText (n : Node) : Node :=
  if n.text.isEmpty then n
  else { n with text := [], children := { tag := "p", text := n.text } :: n.children }

end Node

end OutlinePage.Markdown
