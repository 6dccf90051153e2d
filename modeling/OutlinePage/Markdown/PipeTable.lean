import OutlinePage.Markdown.Node

/-!
# Tables

A table is written with its cells between pipes: a row of headings, a row of dashes that may give
the alignment of each column with colons, and then the other rows. Pipes after a backslash or inside
code belong to the cell.
-/

namespace OutlinePage.Markdown.PipeTable

/-- A mark in a row that may matter for its cells. -/
inductive Mark where
  /-- A pipe at a place. -/
  | pipe (place : Nat)
  /-- Backticks, `count` of them; `isEscaped` if a backslash precedes the first. -/
  | ticks (first last count : Nat) (isEscaped : Bool)

/-- The marks of a row from the given place on. A backslash hides a pipe or a backslash after it. -/
def marks : Nat → Nat → Run → List Mark
  | 0, _, _ => []
  | _, _, [] => []
  | fuel + 1, n, g :: r =>
    if g.is '\\' then
      let k := Run.countStart '`' r
      if k > 0 then .ticks n (n + k) k true :: marks fuel (n + k + 1) (r.drop k)
      else if Run.startsWith "\\" r || Run.startsWith "|" r then marks fuel (n + 2) (r.drop 1)
      else marks fuel (n + 1) r
    else if g.is '`' then
      let k := Run.countStart '`' r + 1
      .ticks n (n + k - 1) k false :: marks fuel (n + k) (r.drop (k - 1))
    else if g.is '|' then .pipe n :: marks fuel (n + 1) r
    else marks fuel (n + 1) r

/-- The end of the code that is opened by `count` backticks, and what follows it. -/
def codeEnd? (count : Nat) : List Mark → Option (Nat × List Mark)
  | [] => none
  | .pipe _ :: ms => codeEnd? count ms
  | .ticks _ last k _ :: ms => if k == count then some (last, ms) else codeEnd? count ms

/-- The places of the pipes that are not inside code. -/
def pipes : Nat → List Mark → List Nat
  | 0, _ => []
  | _, [] => []
  | fuel + 1, .pipe n :: ms => n :: pipes fuel ms
  | fuel + 1, .ticks _ _ count isEscaped :: ms =>
    let size := count - isEscaped.toNat
    match if size == 0 then none else codeEnd? size ms with
    | some (_, after) => pipes fuel after
    | none => pipes fuel ms

/-- Cuts a run at places, which count from `start`; the glyph at each place is dropped. -/
def cutAt (start : Nat) (r : Run) : List Nat → List Run
  | [] => [r]
  | n :: ns => r.take (n - start) :: cutAt (n + 1) (r.drop (n + 1 - start)) ns

/-- The cells between the pipes of a row. -/
def cells (r : Run) : List Run :=
  let ms := marks r.length 0 r
  cutAt 0 r (pipes (ms.length) ms)

/-- The row without the pipe at its end, if one is there that no backslash hides. -/
def dropEnd? (r : Run) : Option Run :=
  match r.reverse with
  | g :: rest =>
    let slashes := Run.countStart '\\' rest
    if g.is '|' && slashes % 2 == 0 then some (rest.drop slashes).reverse else none
  | [] => none

/-- The cells of a row; with `bordered`, pipes at its ends are no cells' bounds. -/
def rowCells (bordered : Bool) (r : Run) : List Run :=
  if bordered then
    let r := if Run.startsWith "|" r then r.drop 1 else r
    cells ((dropEnd? r).getD r)
  else cells r

/-- Does a pipe stand at one of the row's ends? -/
def isBordered (r : Run) : Bool := Run.startsWith "|" r || (dropEnd? r).isSome

/-- The text style for a cell of the separating row. -/
def alignment (cell : Run) : Option Run :=
  let cell := Run.trim ' ' cell
  let left := Run.startsWith ":" cell
  let right := Run.startsWith ":" cell.reverse
  if left && right then some "text-align: center;"
  else if left then some "text-align: left;"
  else if right then some "text-align: right;"
  else none

/-- One cell of the table. -/
def cell (tag : Text) (text : Run) (style : Option Run) : Node :=
  { tag := tag, text := Run.trim ' ' text
    attributes := match style with
      | some s => [("style", s)]
      | none => [] }

/-- One row of the table. Missing cells are empty and surplus ones are dropped. -/
def row (tag : Text) (styles : List (Option Run)) (texts : List Run) : Node :=
  { tag := "tr"
    children := styles.zipIdx.map fun (style, i) => cell tag (texts.getD i []) style }

/-- The table written in the lines, if they are one. -/
def table? (lines : List Run) : Option Node :=
  match lines.map (Run.trim ' ') with
  | header :: separator :: rows =>
    let bordered := isBordered header
    let headings := rowCells bordered header
    let columns := rowCells bordered separator
    let looksRight := headings.length > 1 ||
      headings.length == 1 && bordered && (separator :: rows).all isBordered
    let separates := columns.length == headings.length &&
      columns.all fun c => c.all (Glyph.satisfies fun x => x == '|' || x == ':' || x == '-' || x == ' ')
    if looksRight && separates then
      let styles := columns.map alignment
      let empty : Node := { tag := "tr", children := styles.map fun _ => { tag := "td" } }
      let body := if rows.isEmpty then [empty]
        else rows.map fun r => row "td" styles (rowCells bordered r)
      some {
        tag := "table"
        children := [{ tag := "thead", children := [row "th" styles headings] },
          { tag := "tbody", children := body }] }
    else none
  | _ => none

end OutlinePage.Markdown.PipeTable
