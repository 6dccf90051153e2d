import OutlinePage.Text.Basic

/-!
# Vocabulary

The tag and attribute names that mean something to the compiler.
-/

namespace OutlinePage.Vocabulary

/-- Tags whose text is never taken as Markdown. -/
def verbatimTags : List Text := ["style", "css", "script"]

/-- Tags that move into the head wherever they are written. -/
def headTags : List Text := ["title", "css", "style", "meta", "link"]

/-- Tags without a closing tag, unless they are given text or children. -/
def voidTags : List Text := ["meta", "wbr", "br"]

/-- Tags that are replaced by the elements of another file. -/
def importTags : List Text :=
  ["@import", "@imports", "@require", "@requires", "@include", "@includes", "@need", "@needs",
    "@want", "@wants", "@desire", "@desires", "@necessitate", "@necessitates", "@steal-code-from",
    "@steals-code-from"]

/-- The attribute that makes an element the definition of a component. -/
def componentMarker : Text := "@"

/-- The tag that opens every page. -/
def doctype : Text := "!DOCTYPE html"

/-- Attributes that hold links: `src` and `href`, also with a line feed at their end, and all that
begin with `data-`. -/
def isLinkAttribute (name : Text) : Bool :=
  name == "src" || name == "src\n" || name == "href" || name == "href\n" ||
    Text.startsWith "data-" name

end OutlinePage.Vocabulary
