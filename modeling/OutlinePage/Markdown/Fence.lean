import OutlinePage.Markdown.Glyph

/-!
# Fenced code

Lines between two equal fences, three or more backticks or tildes at the beginning of a line, are
code. The first fence may name the code's language.
-/

namespace OutlinePage.Markdown.Fence

/-- The fence at the beginning of a line, and the rest of the line. -/
def fence? (line : Run) : Option (Run × Run) :=
  let ticks := Run.countStart '`' line
  let tildes := Run.countStart '~' line
  if ticks ≥ 3 then some (line.take ticks, line.drop ticks)
  else if tildes ≥ 3 then some (line.take tildes, line.drop tildes)
  else none

/-- A character of a language's name. -/
def isLanguageChar (c : Char) : Bool :=
  Text.isWord c || c == '#' || c == '.' || c == '+' || c == '-'

/-- The language named after a fence, perhaps empty. A dot may stand in front of it, and only spaces
around it. -/
def language? (info : Run) : Option Text :=
  let info := info.dropWhile (Glyph.is ' ')
  let info := match info with
    | g :: r => if g.is '.' then r else info
    | [] => []
  let name := info.takeWhile (Glyph.satisfies isLanguageChar)
  if (info.drop name.length).all (Glyph.is ' ') then Run.text? name else none

/-- Does the line close a fence? -/
def closes (fence line : Run) : Bool :=
  fence.isPrefixOf line && (line.drop fence.length).all (Glyph.is ' ')

/-- The lines before the one that closes the fence, and the lines after it. -/
def body? (fence : Run) : List Run → Option (List Run × List Run)
  | [] => none
  | l :: ls =>
    if closes fence l then some ([], ls)
    else (body? fence ls).map fun (code, after) => (l :: code, after)

/-- Code as it stands in HTML. -/
def escape (r : Run) : Run :=
  (Run.escapeCode r).flatMap fun g => if g.is '"' then ("&quot;" : Run) else [g]

/-- A block of code as HTML. -/
def render (language : Text) (code : List Run) : Run :=
  let kind : Run :=
    if language.isEmpty then []
    else (" class=\"language-" : Run) ++ escape (Run.ofText language) ++ ("\"" : Run)
  ("<pre><code" : Run) ++ kind ++ (">" : Run) ++
    escape (code.flatMap fun l => l ++ [.char '\n']) ++ ("</code></pre>" : Run)

/-- Stores the fenced code among the lines, each piece between two empty lines. -/
def storeLines : Nat → List Run → List Run
  | 0, ls => ls
  | _ + 1, [] => []
  | n + 1, l :: ls =>
    let found := do
      let (fence, info) ← fence? l
      let language ← language? info
      let (code, after) ← body? fence ls
      return (render language code, after)
    match found with
    | some (html, after) => [] :: [.stored html] :: [] :: storeLines n after
    | none => l :: storeLines n ls

/-- Stores the fenced code of a text. -/
def store (r : Run) : Run :=
  let ls := Run.lines r
  Run.unlines (storeLines ls.length ls)

end OutlinePage.Markdown.Fence
