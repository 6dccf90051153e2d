import OutlinePage.Log
import OutlinePage.Text.Blank
import OutlinePage.Text.Dedent

/-!
# Indentation

Outlines may be indented with spaces. Before they are read, leading spaces become tabs, so that the
depth of a line is a number of tabs.
-/

namespace OutlinePage.Outline

/-- Spaces and tabs at the beginning of a line. -/
def leading (line : Text) : Text := line.takeWhile Text.isIndent

/-- Spaces per level when no line shows them. -/
def defaultIndentSize : Nat := 4

/-- Spaces per level: as many as the first line has that begins with a space and is not blank. -/
def indentSize : List Text → Nat
  | [] => defaultIndentSize
  | line :: rest =>
    if Text.startsWith " " line && !Text.isBlankText line then (line.takeWhile (· == ' ')).length
    else indentSize rest

/-- The line with its leading spaces as tabs. A line without leading spaces stays. -/
def tabLine (size : Nat) (line : Text) : Text :=
  let lead := leading line
  if lead.contains ' ' then
    List.replicate (lead.count '\t' + lead.count ' ' / size) '\t' ++ line.drop lead.length
  else line

/-- A line without spaces among its leading tabs stays. -/
theorem tabLine_of_tabbed {line : Text} (h : ' ' ∉ leading line) (size : Nat) :
    tabLine size line = line := by
  simp only [tabLine, List.contains_iff_mem, if_neg h]

/-- The warning about a line whose spaces make no whole number of levels. -/
def unevenLine (size number : Nat) (line : Text) : Log :=
  let spaces := (leading line).count ' '
  if spaces % size ≠ 0 ∧ !Text.isBlankText line then
    [⟨.warning, "Line " ++ Text.ofNat number ++ ": " ++ Text.ofNat spaces ++
      " spaces is not a multiple of the indent size (" ++ Text.ofNat size ++ ")."⟩]
  else []

/-- The warnings about a list of lines, the first of which has the given number. -/
def unevenLines (size : Nat) : Nat → List Text → Log
  | _, [] => []
  | number, line :: rest => unevenLine size number line ++ unevenLines size (number + 1) rest

/-- Every carriage return before a line feed is dropped. -/
def dropReturns : Text → Text
  | [] => []
  | c :: r => if c = '\r' ∧ Text.startsWith "\n" r then dropReturns r else c :: dropReturns r

/-- A text without carriage returns keeps all its characters. -/
theorem dropReturns_eq_self {t : Text} (h : '\r' ∉ t) : dropReturns t = t := by
  induction t with
  | nil => rfl
  | cons c t ih =>
    rw [List.mem_cons, not_or] at h
    rw [dropReturns, if_neg fun hc => h.1 hc.1.symm, ih h.2]

/-- The lines of a source text. -/
def sourceLines (source : Text) : List Text := Text.split '\n' (dropReturns source)

/-- The source with its indentation in tabs. -/
def normalizeIndentation (source : Text) : Text :=
  let lines := sourceLines source
  Text.join "\n" (lines.map (tabLine (indentSize lines)))

/-- The warnings about uneven indentation in a source. -/
def indentationWarnings (source : Text) : Log :=
  let lines := sourceLines source
  unevenLines (indentSize lines) 1 lines

end OutlinePage.Outline
