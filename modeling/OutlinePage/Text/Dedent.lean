import OutlinePage.Text.Basic

/-!
# Common indentation

Takes the indentation that all lines share off each of them.
-/

namespace OutlinePage.Text

/-- Space or tab. -/
def isIndent (c : Char) : Bool := c == ' ' || c == '\t'

/-- The longest common beginning of two texts. -/
def commonStart : Text → Text → Text
  | a :: s, b :: t => if a = b then a :: commonStart s t else []
  | _, _ => []

/-- Removes the longest run of spaces and tabs that begins every line with other characters. Lines
made of spaces and tabs only become empty and do not count. -/
def dedent (t : Text) : Text :=
  let lines := (split '\n' t).map fun l => if l.all isIndent then [] else l
  let margins := (lines.filter (!·.isEmpty)).map (·.takeWhile isIndent)
  let margin := match margins with
    | [] => []
    | m :: ms => ms.foldl commonStart m
  join "\n" (lines.map (·.drop margin.length))

end OutlinePage.Text
