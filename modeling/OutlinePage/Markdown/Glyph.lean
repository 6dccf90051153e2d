import OutlinePage.Text.Blank
import OutlinePage.Text.Word

/-!
# Runs of glyphs

Markdown text while it is being converted. Besides plain characters it may hold characters that a
backslash made literal, and pieces of HTML that go to the result unchanged; neither is looked at by
the rules of Markdown.
-/

namespace OutlinePage.Markdown

/-- One place of a text under conversion. -/
inductive Glyph where
  /-- A character. -/
  | char (c : Char)
  /-- A character that means nothing but itself. -/
  | literal (c : Char)
  /-- HTML that is kept as it is. -/
  | stored (html : List Glyph)
deriving Repr, BEq, Inhabited

/-- A text under conversion. -/
abbrev Run := List Glyph

namespace Glyph

/-- Is the glyph this character? -/
def is (c : Char) : Glyph → Bool
  | .char d => d == c
  | _ => false

/-- Is the glyph a character that satisfies `p`? -/
def satisfies (p : Char → Bool) : Glyph → Bool
  | .char c => p c
  | _ => false

/-- Is the glyph white space? -/
def isBlank (g : Glyph) : Bool := g.satisfies Text.isBlank

/-- The character, if the glyph is one. -/
def char? : Glyph → Option Char
  | .char c => some c
  | _ => none

end Glyph

namespace Run

/-- A text without anything special in it. -/
def ofText (t : Text) : Run := t.map .char

/-- String literals stand for runs. -/
instance : Coe String Run := ⟨fun s => ofText s.toList⟩

/-- The characters, if there is nothing else. -/
def text? (r : Run) : Option Text := r.mapM Glyph.char?

/-- Does the run begin with the given characters? -/
def startsWith : Text → Run → Bool
  | [], _ => true
  | _ :: _, [] => false
  | c :: t, g :: r => g.is c && startsWith t r

/-- How many glyphs at the beginning are this character. -/
def countStart (c : Char) (r : Run) : Nat := (r.takeWhile (Glyph.is c)).length

/-- The run without white space at its beginning. -/
def stripStart (r : Run) : Run := r.dropWhile Glyph.isBlank

/-- The run without white space at its end. -/
def stripEnd (r : Run) : Run := (r.reverse.dropWhile Glyph.isBlank).reverse

/-- The run without white space at its ends. -/
def strip (r : Run) : Run := stripEnd (stripStart r)

/-- The run without this character at its ends. -/
def trim (c : Char) (r : Run) : Run :=
  ((r.dropWhile (Glyph.is c)).reverse.dropWhile (Glyph.is c)).reverse

/-- Is there nothing but white space? -/
def isBlank (r : Run) : Bool := r.all Glyph.isBlank

/-- The pieces between the occurrences of the character; there is always at least one. -/
def split (c : Char) : Run → List Run
  | [] => [[]]
  | g :: r =>
    if g.is c then [] :: split c r
    else match split c r with
      | [] => [[g]]
      | p :: ps => (g :: p) :: ps

/-- The lines of a run. -/
def lines (r : Run) : List Run := split '\n' r

/-- The lines as one run. -/
def unlines : List Run → Run
  | [] => []
  | [l] => l
  | l :: m :: ls => l ++ .char '\n' :: unlines (m :: ls)

/-- The pieces between the blank lines of a run: it is cut at each pair of line feeds. -/
def paragraphs : Run → List Run
  | [] => [[]]
  | [g] => [[g]]
  | g :: h :: r =>
    if g.is '\n' && h.is '\n' then [] :: paragraphs r
    else match paragraphs (h :: r) with
      | [] => [[g]]
      | p :: ps => (g :: p) :: ps

/-- Characters that have a meaning in HTML are written as entities. -/
def escapeCode (r : Run) : Run :=
  r.flatMap fun g =>
    if g.is '&' then "&amp;" else if g.is '<' then "&lt;" else if g.is '>' then "&gt;" else [g]

end Run

/-- Tags of elements that stand on their own, not inside a line of text. -/
def blockTags : List Text :=
  [
    "address article aside blockquote details div dl fieldset figcaption figure",
    "footer form h1 h2 h3 h4 h5 h6 header hgroup hr main menu nav ol p pre search",
    "section table ul canvas colgroup dd body dt group html iframe li legend math map",
    "noscript output object option progress script style summary tbody td textarea",
    "tfoot th thead tr video"
  ].flatMap fun (s : String) => Text.split ' ' s

/-- Is this the tag of an element that stands on its own? Case and a final slash do not matter. -/
def isBlockTag (tag : Text) : Bool :=
  blockTags.contains (Text.trimEnd (· == '/') (tag.map Char.toLower))

end OutlinePage.Markdown
