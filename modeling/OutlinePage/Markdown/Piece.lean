import OutlinePage.Markdown.Node

/-!
# Text with finished parts

While the marks inside a text are looked for, each part that was recognised is finished: later rules
step over it as if it were a single strange character.
-/

namespace OutlinePage.Markdown

/-- One place of a text whose marks are being looked for. -/
inductive Piece where
  /-- A place that was not touched. -/
  | glyph (g : Glyph)
  /-- A finished run of text. -/
  | held (r : Run)
  /-- A finished element. -/
  | element (tag : Text) (attributes : List (Text × Run)) (isAtomic : Bool) (inside : List Piece)
deriving Inhabited

namespace Piece

/-- Is the piece this character? -/
def is (c : Char) : Piece → Bool
  | .glyph g => g.is c
  | _ => false

/-- Is the piece a character that satisfies `p`? -/
def satisfies (p : Char → Bool) : Piece → Bool
  | .glyph g => g.satisfies p
  | _ => false

/-- Is the piece white space? -/
def isBlank (p : Piece) : Bool := p.satisfies Text.isBlank

/-- Is the piece a part of a word? -/
def isWord (p : Piece) : Bool := p.satisfies Text.isWord

end Piece

/-- A text whose marks are being looked for. -/
abbrev Pieces := List Piece

namespace Pieces

/-- A text nothing of which is finished. -/
def ofRun (r : Run) : Pieces := r.map .glyph

/-- How many pieces at the beginning are this character. -/
def countStart (c : Char) (ps : Pieces) : Nat := (ps.takeWhile (Piece.is c)).length

/-- Do the pieces begin with the given characters? -/
def startsWith : Text → Pieces → Bool
  | [], _ => true
  | _ :: _, [] => false
  | c :: t, p :: ps => p.is c && startsWith t ps

/-- Does a character that satisfies `p` come first? -/
def nextIs (p : Char → Bool) : Pieces → Bool
  | [] => false
  | q :: _ => q.satisfies p

/-- The pieces without white space at their ends. -/
def strip (ps : Pieces) : Pieces :=
  ((ps.dropWhile Piece.isBlank).reverse.dropWhile Piece.isBlank).reverse

/-- The least number of pieces, at least `least`, after which `p` holds of the piece before and the
pieces that follow. -/
def find? (p : Option Piece → Pieces → Bool) : Nat → Option Piece → Pieces → Option Nat
  | _, _, [] => none
  | least, before, q :: ps =>
    if least == 0 && p before (q :: ps) then some 0
    else (find? p (least - 1) (some q) ps).map (· + 1)

/-- The pieces as text: of an element only the text inside it. -/
def toRun : Pieces → Run
  | [] => []
  | .glyph g :: ps => g :: toRun ps
  | .held r :: ps => r ++ toRun ps
  | .element _ _ _ inside :: ps => toRun inside ++ toRun ps

/-- The untouched glyphs, if there is nothing else. -/
def run? (ps : Pieces) : Option Run := ps.mapM fun
  | .glyph g => some g
  | _ => none

/-- The finished text: what stands before the first element, and the elements with their tails. -/
def toNodes : Pieces → Run × List Node
  | [] => ([], [])
  | .glyph g :: ps =>
    let (text, nodes) := toNodes ps
    (g :: text, nodes)
  | .held r :: ps =>
    let (text, nodes) := toNodes ps
    (r ++ text, nodes)
  | .element tag attributes isAtomic inside :: ps =>
    let (tail, nodes) := toNodes ps
    let (text, children) := toNodes inside
    ([], { tag, attributes, isAtomic, text, children, tail } :: nodes)

end Pieces

/-- What a rule makes of the beginning of a text. -/
structure Draft where
  tag : Text
  attributes : List (Text × Run) := []
  text : Pieces := []
  children : List Draft := []
  /-- The text after the element. -/
  tail : Pieces := []
deriving Inhabited

namespace Draft

/-- The children of a draft as finished pieces. -/
def childPieces (ds : List Draft) : Pieces := ds.flatMap toPieces
where
  toPieces : Draft → Pieces
    | ⟨tag, attributes, text, children, tail⟩ =>
      .element tag attributes false (text ++ go children) :: tail
  go : List Draft → Pieces
    | [] => []
    | d :: ds => toPieces d ++ go ds

end Draft

/-- What a rule for marks says about a place in the text. -/
inductive Verdict where
  /-- Nothing here: go on after so many pieces. -/
  | pass (count : Nat)
  /-- So many pieces are finished and become this one. -/
  | put (count : Nat) (piece : Piece)
  /-- So many pieces become an element in whose text other marks are looked for. -/
  | build (count : Nat) (draft : Draft)

end OutlinePage.Markdown
