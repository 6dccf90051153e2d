import OutlinePage.Text.Dedent

/-!
# Prose

The text of an element is Markdown. Its lines after the first carry the indentation of the outline,
which is taken off before conversion, and a text that comes out as one paragraph is unwrapped.
-/

namespace OutlinePage.Prose

/-- What the converter is given: the text with the common indentation of all lines but the first
taken off. -/
def prepare (t : Text) : Text :=
  match Text.cut '\n' t with
  | (first, none) => first
  | (first, some rest) => first ++ "\n" ++ Text.dedent rest

/-- The text before the first opening or closing paragraph tag, and the text from there on. -/
def beforeParagraphTag : Text → Text × Text
  | [] => ([], [])
  | c :: r =>
    if Text.startsWith "<p>" (c :: r) || Text.startsWith "</p>" (c :: r) then ([], c :: r)
    else match beforeParagraphTag r with
      | (before, after) => (c :: before, after)

/-- The inside of the only paragraph that the HTML consists of. A line feed may follow it. -/
def onlyParagraph? (html : Text) : Option Text :=
  if Text.startsWith "<p>" html then
    match beforeParagraphTag (html.drop 3) with
    | (inside, close) => if close = "</p>" ∨ close = "</p>\n" then some inside else none
  else none

/-- The HTML of a text, for a converter from Markdown to HTML. -/
def toHtml (convert : Text → Text) (t : Text) : Text :=
  let html := convert (prepare t)
  (onlyParagraph? html).getD html

end OutlinePage.Prose
