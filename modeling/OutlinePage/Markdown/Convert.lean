import OutlinePage.Markdown.Fence
import OutlinePage.Markdown.Inline
import OutlinePage.Markdown.RawHtml

/-!
# Markdown to HTML
-/

namespace OutlinePage.Markdown

/-- Columns of spaces in place of tabs; `column` is where the text begins. -/
def expandTabs (column : Nat) : Text → Text
  | [] => []
  | c :: t =>
    if c == '\t' then
      let width := 4 - column % 4
      List.replicate width ' ' ++ expandTabs (column + width) t
    else c :: expandTabs (if c == '\n' || c == '\r' then 0 else column + 1) t

/-- The lines of a text with spaces for tabs. A line of nothing but spaces is empty unless it is the
first. -/
def normalLines (t : Text) : List Text :=
  let t := t.filter fun c => c != '\x02' && c != '\x03'
  match Text.split '\n' (expandTabs 0 (Text.unifyNewlines t ++ ("\n\n" : Text))) with
  | [] => []
  | first :: rest => first :: rest.map fun l => if l.all (· == ' ') then [] else l

/-- The HTML for a text, unless a tag in it cannot be read. -/
def toHtml? (t : Text) : Option Text :=
  if Text.isBlankText t then some []
  else do
    let r := Run.unlines ((normalLines t).map Run.ofText)
    let r ← RawHtml.store? (Fence.store r)
    let (tree, names) := readBlocks r
    let tree := ((tree.finishTexts names r.length).layOut).finish
    let html := tree.children.flatMap Html.render
    return Text.strip (Html.expand (Run.strip html))

end OutlinePage.Markdown
