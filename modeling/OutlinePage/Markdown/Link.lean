import OutlinePage.Markdown.Block
import OutlinePage.Markdown.Piece

/-!
# Links and images

A link is a text in square brackets followed by its address in round brackets, or by the name of an
address that is defined elsewhere. An image is a link with an exclamation mark in front.
-/

namespace OutlinePage.Markdown.Link

/-- The text up to the square bracket that closes it, and how many pieces that is with the
bracket. -/
def label? (ps : Pieces) : Option (Pieces × Nat) := go 1 0 [] ps
where
  go (depth count : Nat) (text : Pieces) : Pieces → Option (Pieces × Nat)
    | [] => none
    | p :: ps =>
      if p.is ']' then
        if depth == 1 then some (text.reverse, count + 1) else go (depth - 1) (count + 1) (p :: text) ps
      else go (if p.is '[' then depth + 1 else depth) (count + 1) (p :: text) ps

/-- An address with its title, and how many pieces they take. -/
structure Found where
  address : Pieces
  title : Option Pieces := none
  count : Nat

/-- An address in angle brackets, perhaps with a title in quotes, and the closing bracket. -/
def angled? (ps : Pieces) : Option Found := do
  guard (Pieces.startsWith "<" ps)
  let inside := (ps.drop 1).takeWhile fun p => !(p.is '<' || p.is '>')
  let rest := ps.drop (inside.length + 1)
  guard (Pieces.startsWith ">" rest)
  let rest := (rest.drop 1).dropWhile Piece.isBlank
  let ending (title : Option Pieces) (rest : Pieces) : Option Found := do
    guard (Pieces.startsWith ")" rest)
    return { address := Pieces.strip inside, title, count := ps.length - rest.length + 1 }
  let quoted (quote : Char) : Option Found := do
    guard (Pieces.startsWith [quote] rest)
    let title := (rest.drop 1).takeWhile (!·.is quote)
    let after := rest.drop (title.length + 1)
    guard (Pieces.startsWith [quote] after)
    ending (some title) ((after.drop 1).dropWhile Piece.isBlank)
  quoted '\'' <|> quoted '"' <|> ending none rest

/-- A quotation mark in an address: the places after it and after the mark that closes it. -/
structure Quotation where
  mark : Char
  start : Nat
  stop : Option Nat := none

/-- The search for the end of an address. -/
structure Search where
  depth : Nat := 1
  /-- The brackets still open when the first quotation mark came. -/
  spare : Nat := 1
  /-- The place after the bracket that would close the address if the quotation marks were text. -/
  fallback : Option Nat := none
  first : Option Quotation := none
  second : Option Quotation := none
  /-- The last piece that is not a space. -/
  last : Option Piece := none

namespace Search

/-- Was the last piece the mark that closes the quotation? -/
def endsWith (s : Search) (q : Option Quotation) : Bool :=
  match q with
  | some ⟨mark, _, some _⟩ => s.last.any (Piece.is mark)
  | _ => false

/-- A quotation mark before the place `n`. -/
def quote (s : Search) (mark : Char) (n : Nat) : Search :=
  match s.first, s.second with
  | none, _ => { s with spare := s.depth, depth := 1, first := some ⟨mark, n, none⟩ }
  | some q, second =>
    if q.mark == mark then { s with first := some { q with stop := some n } }
    else match second with
      | none => { s with second := some ⟨mark, n, none⟩ }
      | some r => { s with second := some { r with stop := some n } }

/-- A closing bracket before the place `n`. -/
def close (s : Search) (n : Nat) : Search :=
  if s.endsWith s.first || s.endsWith s.second then { s with depth := 0 }
  else if s.first.isNone then { s with depth := s.depth - 1 }
  else if s.spare > 0 then
    { s with spare := s.spare - 1, fallback := if s.spare == 1 then some n else s.fallback }
  else s

/-- An opening bracket. -/
def nest (s : Search) : Search :=
  if s.first.isNone then { s with depth := s.depth + 1 }
  else { s with spare := s.spare - 1 }

/-- Reads pieces until the address is closed; `n` were read before. -/
def run (s : Search) (n : Nat) : Pieces → Search × Nat
  | [] => (s, n)
  | p :: ps =>
    let s := if p.is '(' then s.nest
      else if p.is ')' then s.close (n + 1)
      else if p.is '\'' then s.quote '\'' (n + 1)
      else if p.is '"' then s.quote '"' (n + 1)
      else s
    if s.depth == 0 then (s, n + 1)
    else run (if p.is ' ' then s else { s with last := some p }) (n + 1) ps

end Search

/-- An address, perhaps with a title, and the closing bracket. Brackets may be nested in it. -/
def bare? (ps : Pieces) : Option Found :=
  let (s, n) := Search.run {} 0 ps
  let title (q : Option Quotation) : Option Found :=
    match q with
    | some ⟨_, start, some stop⟩ =>
      some { address := ps.take (start - 1), title := some ((ps.take (stop - 1)).drop start), count := n }
    | _ => none
  if s.depth == 0 then
    if s.endsWith s.first then title s.first
    else if s.endsWith s.second then title s.second
    else some { address := ps.take (n - 1), count := n }
  else match s.spare, s.fallback with
    | 0, some k => some { address := ps.take (k - 1), count := k }
    | _, _ => none

/-- The address of a link in round brackets. -/
def address? (ps : Pieces) : Option Found := do
  guard (Pieces.startsWith "(" ps)
  let inside := (ps.drop 1).dropWhile Piece.isBlank
  let skipped := ps.length - inside.length
  let found ← angled? inside <|> bare? inside
  return { found with count := found.count + skipped }

/-- A title without quotation marks around it; all white space in it becomes spaces. -/
def cleanTitle (title : Pieces) : Run :=
  let r := Pieces.toRun (Pieces.strip title)
  let inside := (r.drop 1).dropLast
  let quotedBy (c : Char) : Bool := r.head?.any (Glyph.is c) && r.getLast?.any (Glyph.is c)
  let r := if quotedBy '"' || quotedBy '\'' then inside else r
  r.map fun g => if g.isBlank then .char ' ' else g

/-- The attributes of a link or image that leads to `address`. -/
def attributes (name : Text) (address : Run) (title : Option Run) : List (Text × Run) :=
  (name, address) :: (title.map fun t => (("title" : Text), t)).toList

/-- The element for a link or, with an exclamation mark, an image. -/
def make (isImage : Bool) (label : Pieces) (address : Run) (title : Option Run) (count : Nat) : Verdict :=
  if isImage then
    let alternative : Text × Run := ("alt", Pieces.toRun label)
    .put count (.element "img" (attributes "src" address title ++ [alternative]) false [])
  else .build count { tag := "a", attributes := attributes "href" address title, text := label }

/-- How many pieces open a link or an image here. -/
def opening (isImage : Bool) (before : Option Piece) (ps : Pieces) : Option Nat :=
  if isImage then if Pieces.startsWith "![" ps then some 2 else none
  else if Pieces.startsWith "[" ps && !before.any (Piece.is '!') then some 1 else none

/-- A link or an image with its address. -/
def direct (isImage : Bool) (before : Option Piece) (ps : Pieces) : Verdict :=
  match opening isImage before ps with
  | none => .pass 1
  | some k =>
    let found := do
      let (label, n) ← label? (ps.drop k)
      let found ← address? (ps.drop (k + n))
      return (label, n, found)
    match found with
    | some (label, n, found) =>
      make isImage label (Run.strip (Pieces.toRun found.address)) (found.title.map cleanTitle)
        (k + n + found.count)
    | none => .pass k

/-- The name of an address as it is looked up: white space counts as one space, case does not
matter. -/
def name? (ps : Pieces) : Option Run := (Pieces.run? ps).map fun r => squeeze false (Block.lower r)
where
  squeeze : Bool → Run → Run
    | _, [] => []
    | afterBlank, g :: r =>
      if g.isBlank then if afterBlank then squeeze true r else .char ' ' :: squeeze true r
      else g :: squeeze false r

/-- The name in square brackets after a label. -/
def named? (ps : Pieces) : Option (Pieces × Nat) := do
  let k := if Pieces.nextIs Text.isBlank ps then 1 else 0
  let ps := ps.drop k
  guard (Pieces.startsWith "[" ps)
  let name := (ps.drop 1).takeWhile (!·.is ']')
  guard (Pieces.startsWith "]" (ps.drop (name.length + 1)))
  return (name, k + name.length + 2)

/-- A link or an image with the name of its address; with `isShort` the label is the name. An
unknown name is stepped over. -/
def byName (isImage isShort : Bool) (names : Names) (before : Option Piece) (ps : Pieces) : Verdict :=
  match opening isImage before ps with
  | none => .pass 1
  | some k =>
    let found := do
      let (label, n) ← label? (ps.drop k)
      if isShort then return (label, label, k + n)
      else
        let (name, m) ← named? (ps.drop (k + n))
        return (label, if name.isEmpty then label else name, k + n + m)
    match found with
    | none => .pass k
    | some (label, name, count) =>
      match (name? name).bind (List.lookup · names) with
      | some target => make isImage label target.address target.title count
      | none => .pass count

end OutlinePage.Markdown.Link
