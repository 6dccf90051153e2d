import OutlinePage.Table

/-!
# Elements

The nodes of a document tree, from reading an outline to writing the page: a tag and the elements
below it.
-/

namespace OutlinePage

/-- Everything about an element but its children. -/
structure Tag where
  name : Text
  /-- The file that the tag was written in. -/
  file : Text
  attributes : Table Text Text := {}
  classes : List Text := []
  id : Option Text := none
  /-- The text after the tag, before any children. -/
  text : Option Text := none
  /-- Has no closing tag as long as there is neither text nor a child. -/
  isVoid : Bool := false
  /-- The text is never taken as Markdown. -/
  isVerbatim : Bool := false
  /-- The text was written as a block of lines below the tag. -/
  isBlock : Bool := false
  /-- Line of the tag in its file, from 1; 0 if it stands in no file. -/
  line : Int := 0
  /-- Column of the tag in its line, from 1. -/
  column : Int := 0
deriving DecidableEq, Repr, Inhabited

/-- Line and column, or nothing for a tag that stands in no file. -/
def Tag.position (t : Tag) : Text :=
  if t.line = 0 then [] else Text.ofInt t.line ++ ":" ++ Text.ofInt t.column

/-- The text that the tag holds; an empty text counts as none. -/
def Tag.text? (t : Tag) : Option Text := t.text.filter (!·.isEmpty)

/-- A node of the document tree. -/
structure Element where
  tag : Tag
  children : List Element := []
deriving BEq, Repr, Inhabited

namespace Element

/-- The name of the element's tag. -/
def name (e : Element) : Text := e.tag.name

/-- Does the element have the given name? -/
def isNamed (name : Text) (e : Element) : Bool := e.name == name

/-- The first direct child with the given name. -/
def findChild (e : Element) (name : Text) : Option Element := e.children.find? (isNamed name)

end Element

end OutlinePage
