import OutlinePage.Markdown.Piece

/-!
# Emphasis

Stars or underscores around a text make it emphasised or strong, three of them both. Underscores
inside words are left alone.
-/

namespace OutlinePage.Markdown.Emphasis

/-- The texts that a form of emphasis found, and how many pieces it takes. -/
structure Found where
  count : Nat
  first : Pieces
  second : Pieces := []

/-- What a form of emphasis makes of its texts. -/
inductive Shape where
  /-- One element around the first text. -/
  | single (tag : Text)
  /-- The first text in the inner element, the second after it. -/
  | innerFirst (outer inner : Text)
  /-- The first text before the inner element, the second in it. -/
  | innerLast (outer inner : Text)

/-- A form of emphasis: what it looks like, given the piece before it, and what it means. -/
structure Form where
  shape : Shape
  find? : Option Piece → Pieces → Option Found

/-- Do the pieces begin with `n` of the mark? -/
def opens (mark : Char) (n : Nat) (ps : Pieces) : Bool := Pieces.countStart mark ps ≥ n

/-- Three marks, a text, `a` marks, another text, `b` marks. -/
def triple (mark : Char) (a b : Nat) (_ : Option Piece) (ps : Pieces) : Option Found := do
  guard (opens mark 3 ps)
  let r := ps.drop 3
  let i ← Pieces.find? (fun _ => opens mark a) 1 none r
  let s := r.drop (i + a)
  let j ← Pieces.find? (fun _ => opens mark b) 0 none s
  return { count := 3 + i + a + j + b, first := r.take i, second := s.take j }

/-- Two stars, a text, one star, another text, three stars. -/
def starDouble (_ : Option Piece) (ps : Pieces) : Option Found := do
  guard (Pieces.countStart '*' ps == 2)
  let r := ps.drop 2
  let i := (r.takeWhile (!·.is '*')).length
  guard (i > 0 && Pieces.countStart '*' (r.drop i) == 1)
  let s := r.drop (i + 1)
  let j ← Pieces.find? (fun _ => opens '*' 3) 1 none s
  return { count := 2 + i + 1 + j + 3, first := r.take i, second := s.take j }

/-- Two stars on both sides of a text. -/
def starStrong (_ : Option Piece) (ps : Pieces) : Option Found := do
  guard (opens '*' 2 ps)
  let r := ps.drop 2
  let i ← Pieces.find? (fun _ => opens '*' 2) 1 none r
  return { count := 2 + i + 2, first := r.take i }

/-- One star on both sides of a text without stars. -/
def starPlain (_ : Option Piece) (ps : Pieces) : Option Found := do
  guard (opens '*' 1 ps)
  let r := ps.drop 1
  let i := (r.takeWhile (!·.is '*')).length
  guard (i > 0 && opens '*' 1 (r.drop i))
  return { count := i + 2, first := r.take i }

/-- Is the piece before a place a part of a word? -/
def afterWord (before : Option Piece) : Bool := before.any Piece.isWord

/-- Two underscores, a text, one underscore, another text, three underscores. -/
def lineDouble (before : Option Piece) (ps : Pieces) : Option Found := do
  guard (!afterWord before && Pieces.countStart '_' ps == 2)
  let r := ps.drop 2
  let i ← Pieces.find? (fun b q => !afterWord b && Pieces.countStart '_' q == 1) 1 none r
  let s := r.drop (i + 1)
  let j ← Pieces.find? (fun _ q => opens '_' 3 q && !Pieces.nextIs Text.isWord (q.drop 3)) 1 none s
  return { count := 2 + i + 1 + j + 3, first := r.take i, second := s.take j }

/-- `n` underscores on both sides of a text, with no word right outside. -/
def lineSingle (n : Nat) (before : Option Piece) (ps : Pieces) : Option Found := do
  guard (!afterWord before && Pieces.countStart '_' ps == n)
  let r := ps.drop n
  let closes (b : Option Piece) (q : Pieces) : Bool :=
    !b.any (Piece.is '_') && opens '_' n q && !Pieces.nextIs Text.isWord (q.drop n)
  let i ← Pieces.find? closes 1 none r
  return { count := n + i + n, first := r.take i }

/-- The forms of emphasis with stars. -/
def stars : List Form :=
  [⟨.innerFirst "strong" "em", triple '*' 1 2⟩, ⟨.innerFirst "em" "strong", triple '*' 2 1⟩,
    ⟨.innerLast "strong" "em", starDouble⟩, ⟨.single "strong", starStrong⟩, ⟨.single "em", starPlain⟩]

/-- The forms of emphasis with underscores. -/
def underscores : List Form :=
  [⟨.innerFirst "strong" "em", triple '_' 1 2⟩, ⟨.innerFirst "em" "strong", triple '_' 2 1⟩,
    ⟨.innerLast "strong" "em", lineDouble⟩, ⟨.single "strong", lineSingle 2⟩,
    ⟨.single "em", lineSingle 1⟩]

/-- An element's content while it is being built; the last child comes first. -/
structure Content where
  text : Pieces := []
  children : List Draft := []

/-- Adds text at the end. -/
def Content.addText (c : Content) (ps : Pieces) : Content :=
  if ps.isEmpty then c
  else match c.children with
    | [] => { c with text := ps }
    | d :: ds => { c with children := { d with tail := ps } :: ds }

/-- Adds an element at the end. -/
def Content.addChild (c : Content) (d : Draft) : Content := { c with children := d :: c.children }

/-- The element with this content. -/
def Content.toDraft (tag : Text) (c : Content) : Draft :=
  { tag, text := c.text, children := c.children.reverse }

/-- A place in a text: the piece before it, the text since the last element (last piece first), and
what follows. -/
structure Place where
  before : Option Piece := none
  pending : Pieces := []
  rest : Pieces

/-- Steps over `n` pieces that were made into an element. -/
def Place.skip (n : Nat) (p : Place) : Place :=
  { before := (p.rest.take n).getLast?.or p.before, pending := [], rest := p.rest.drop n }

/-- Looks for forms of emphasis inside an emphasised text, only those that come after the one that
was found around it. `inner` makes the element for a form. -/
def fill (mark : Char) (forms : List Form)
    (inner : List Form → Shape → Found → Draft) : Nat → Place → Content → Content
  | 0, p, c => c.addText (p.pending.reverse ++ p.rest)
  | fuel + 1, p, c =>
    match p.rest with
    | [] => c.addText p.pending.reverse
    | q :: rest =>
      let step := if q.is mark then tryForms forms p c else none
      match step with
      | some (p, c) => fill mark forms inner fuel p c
      | none => fill mark forms inner fuel ⟨some q, q :: p.pending, rest⟩ c
where
  /-- Each form is tried once, the next one where the last one ended. -/
  tryForms : List Form → Place → Content → Option (Place × Content)
    | [], _, _ => none
    | f :: fs, p, c =>
      match f.find? p.before p.rest with
      | some found =>
        let c := (c.addText p.pending.reverse).addChild (inner fs f.shape found)
        let p := p.skip found.count
        some ((tryForms fs p c).getD (p, c))
      | none => tryForms fs p c

/-- The element for a form of emphasis that was found; `later` are the forms that come after it. -/
def build (mark : Char) : Nat → List Form → Shape → Found → Draft
  | 0, _, _, found => { tag := "em", text := found.first }
  | fuel + 1, later, shape, found =>
    let content (ps : Pieces) (c : Content) : Content :=
      fill mark later (build mark fuel) (ps.length + 1) { rest := ps } c
    match shape with
    | .single tag => (content found.first {}).toDraft tag
    | .innerFirst outer inner =>
      let child := (content found.first {}).toDraft inner
      (content found.second { children := [child] }).toDraft outer
    | .innerLast outer inner =>
      let child := (content found.second {}).toDraft inner
      ((content found.first {}).addChild child).toDraft outer

/-- Looks for emphasis at a place. -/
def verdict (mark : Char) (forms : List Form) (before : Option Piece) (ps : Pieces) : Verdict :=
  if Pieces.nextIs (· == mark) ps then tryEach forms else .pass 1
where
  tryEach : List Form → Verdict
    | [] => .pass 1
    | f :: fs =>
      match f.find? before ps with
      | some found => .build found.count (build mark (ps.length + 1) fs f.shape found)
      | none => tryEach fs

end OutlinePage.Markdown.Emphasis
