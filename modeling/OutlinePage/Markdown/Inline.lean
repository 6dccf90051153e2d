import OutlinePage.Markdown.Emphasis
import OutlinePage.Markdown.Html
import OutlinePage.Markdown.Link

/-!
# Marks inside a text

The rules for marks are tried one after the other on the whole text of an element. What a rule
recognises is finished, and the rule starts again from the beginning of the text, until it finds
nothing more.
-/

namespace OutlinePage.Markdown.Inline

/-- A rule for marks: what it says about a place, given the piece before it. -/
abbrev Rule := Names → Option Piece → Pieces → Verdict

/-- Code between two equal runs of backticks, tried with `k` backticks, then with fewer. -/
def codeSpan? (ps : Pieces) : Nat → Option (Nat × Pieces)
  | 0 => none
  | k + 1 =>
    let n := k + 1
    let inside := ps.drop n
    let closes (before : Option Piece) (q : Pieces) : Bool :=
      !before.any (Piece.is '`') && Pieces.countStart '`' q == n
    match Pieces.find? closes 1 none inside with
    | some i => some (n + i + n, inside.take i)
    | none => codeSpan? ps k

/-- Code between backticks. Pairs of backslashes before backticks stand for themselves. -/
def code : Rule := fun _ before ps =>
  if before.any (Piece.is '\\') then .pass 1
  else
    let slashes := Pieces.countStart '\\' ps
    if slashes > 0 then
      if slashes % 2 == 0 && Pieces.startsWith "`" (ps.drop slashes) then
        .put slashes (.held (List.replicate (slashes / 2) (.literal '\\')))
      else .pass 1
    else match codeSpan? ps (Pieces.countStart '`' ps) with
      | some (count, inside) =>
        let text := Run.escapeCode (Run.strip (Pieces.toRun inside))
        .put count (.element "code" [] true (Pieces.ofRun text))
      | none => .pass 1

/-- The characters that a backslash makes literal. -/
def isEscapable (c : Char) : Bool := "\\`*_\x7b\x7d[]()>#+-.!|".toList.contains c

/-- A backslash makes the character after it literal. -/
def escape : Rule := fun _ _ ps =>
  match ps with
  | p :: q :: _ =>
    if p.is '\\' then
      match q with
      | .glyph (.char c) => if isEscapable c then .put 2 (.held [.literal c]) else .pass 2
      | _ => .pass 2
    else .pass 1
  | _ => .pass 1

/-- The pieces between `<` and the next `>`, if no other `<` comes before. -/
def bracketed? (ps : Pieces) : Option Pieces := do
  guard (Pieces.startsWith "<" ps)
  let inside := (ps.drop 1).takeWhile fun p => !(p.is '<' || p.is '>')
  guard (Pieces.startsWith ">" (ps.drop (inside.length + 1)))
  return inside

/-- Does the text begin like a web address? -/
def isAddress (ps : Pieces) : Bool :=
  let scheme := Block.lower (Pieces.toRun (ps.takeWhile (·.satisfies Text.isLetter)))
  let schemes : List Run := ["http", "https", "ftp", "ftps"]
  schemes.contains scheme && Pieces.startsWith "://" (ps.drop scheme.length)

/-- A web address in angle brackets. -/
def address : Rule := fun _ _ ps =>
  match bracketed? ps with
  | some inside =>
    if isAddress inside then
      .put (inside.length + 2) (.element "a" [("href", Pieces.toRun inside)] true inside)
    else .pass 1
  | none => .pass 1

/-- A character written by its number. -/
def numbered (g : Glyph) : Glyph :=
  match g with
  | .char c => .stored (("&#" : Run) ++ Run.ofText (Text.ofNat c.toNat) ++ (";" : Run))
  | .literal c => .stored (("&#" : Run) ++ Run.ofText (Text.ofNat c.toNat) ++ (";" : Run))
  | g => g

/-- A character written by its name if it has one, else by its number. -/
def named (g : Glyph) : Glyph :=
  if g.is '&' then .stored "&amp;" else if g.is '"' then .stored "&quot;" else numbered g

/-- A mail address in angle brackets, written so that machines do not recognise it. -/
def mail : Rule := fun _ _ ps =>
  let found := do
    let inside ← bracketed? ps
    let domain := inside.reverse.takeWhile (!·.is '@')
    let user := inside.dropLast.take (inside.length - domain.length - 1)
    guard (domain.length < inside.length && !domain.isEmpty && !user.isEmpty)
    guard (!inside.any (·.is ' ') && !user.any (·.is '!'))
    return inside
  match found with
  | some inside =>
    let r := Pieces.toRun inside
    let r := if Run.startsWith "mailto:" r then r.drop 7 else r
    let href := (("mailto:" : Run) ++ r).map numbered
    .put (inside.length + 2) (.element "a" [("href", href)] true (Pieces.ofRun (r.map named)))
  | none => .pass 1

/-- Two spaces at the end of a line are a line break. -/
def lineBreak : Rule := fun _ _ ps =>
  if Pieces.startsWith "  \n" ps then .put 3 (.element "br" [] false []) else .pass 1

/-- HTML as it was written: backslashes are there again. -/
def verbatim (ps : Pieces) : Run := ps.flatMap fun
  | .glyph g => [g]
  | .held r => .char '\\' :: Html.plain r
  | p => (Pieces.toNodes [p]).2.flatMap Html.render

/-- The length of a tag. -/
def tagLength? (ps : Pieces) : Option Nat := do
  guard (Pieces.startsWith "<" ps)
  let r := ps.drop 1
  let r := if Pieces.startsWith "/" r then r.drop 1 else r
  guard (Pieces.nextIs Text.isLetter r)
  let r := r.dropWhile fun p => !(p.is '<' || p.is '>' || p.is '@' || p.is ' ')
  let r := if Pieces.startsWith " " r then r.dropWhile fun p => !(p.is '<' || p.is '>') else r
  guard (Pieces.startsWith ">" r)
  return ps.length - r.length + 1

/-- The length of a comment. -/
def commentLength? (ps : Pieces) : Option Nat := do
  guard (Pieces.startsWith "<!--" ps)
  let r := ps.drop 4
  let i ← Pieces.find? (fun _ q => Pieces.startsWith "<!--" q || Pieces.startsWith "-->" q) 0 none r
  guard (Pieces.startsWith "-->" (r.drop i))
  return 4 + i + 3

/-- A tag or a comment inside a text is kept. -/
def html : Rule := fun _ _ ps =>
  match tagLength? ps <|> commentLength? ps with
  | some n => .put n (.held [.stored (verbatim (ps.take n))])
  | none => .pass 1

/-- The length of an entity. -/
def entityLength? (ps : Pieces) : Option Nat := do
  guard (Pieces.startsWith "&" ps)
  let name := (ps.drop 1).takeWhile (·.satisfies fun c => c == '#' || Text.isAlnum c)
  let r ← Pieces.run? name
  guard (Pieces.startsWith ";" (ps.drop (name.length + 1)))
  guard (Html.startsEntity (r ++ (";" : Run)) && !Run.startsWith "#X" r)
  return name.length + 2

/-- An entity is kept. -/
def entity : Rule := fun _ _ ps =>
  match entityLength? ps with
  | some n => .put n (.held [.stored (verbatim (ps.take n))])
  | none => .pass 1

/-- Up to three stars or underscores with white space around them stand for themselves. -/
def lonelyMark : Rule := fun _ before ps =>
  let count := max (Pieces.countStart '*' ps) (Pieces.countStart '_' ps)
  let rest := ps.drop count
  let free := before.all Piece.isBlank && (rest.isEmpty || Pieces.nextIs Text.isBlank rest)
  if 1 ≤ count && count ≤ 3 && free then
    match Pieces.run? (ps.take count) with
    | some r => .put count (.held r)
    | none => .pass 1
  else .pass 1

/-- The rules in the order in which they are tried. -/
def rules : List Rule :=
  [code, escape, Link.byName false false, fun _ => Link.direct false, fun _ => Link.direct true,
    Link.byName true false, Link.byName false true, Link.byName true true, address, mail, lineBreak,
    html, entity, lonelyMark, fun _ => Emphasis.verdict '*' Emphasis.stars,
    fun _ => Emphasis.verdict '_' Emphasis.underscores]

/-- The first place where a rule recognises something: the pieces before it, and what it is. -/
def search (rule : Option Piece → Pieces → Verdict) :
    Nat → Pieces → Pieces → Option (Pieces × Pieces × (Piece ⊕ Draft))
  | 0, _, _ => none
  | _, _, [] => none
  | fuel + 1, done, ps =>
    match rule done.head? ps with
    | .pass n => search rule fuel ((ps.take (max 1 n)).reverse ++ done) (ps.drop (max 1 n))
    | .put n p => some (done.reverse, ps.drop n, .inl p)
    | .build n d => some (done.reverse, ps.drop n, .inr d)

/-- Applies the rules to a text. In the text of a new element and of its children the later rules
are tried at once, and behind its children this one again. -/
def apply (names : Names) : Nat → List Rule → Pieces → Pieces
  | 0, _, ps => ps
  | _, [], ps => ps
  | fuel + 1, rule :: later, ps =>
    match search (rule names) (ps.length + 1) [] ps with
    | none => apply names fuel later ps
    | some (before, after, found) =>
      let piece := match found with
        | .inl p => p
        | .inr d =>
          let children := d.children.flatMap fun c =>
            .element c.tag c.attributes false
                (apply names fuel later c.text ++ Draft.childPieces c.children) ::
              apply names fuel (rule :: later) c.tail
          .element d.tag d.attributes false (apply names fuel later d.text ++ children)
      apply names fuel (rule :: later) (before ++ piece :: after)

/-- Finishes a text: what stands before the first element, and the elements. -/
def finish (names : Names) (r : Run) : Run × List Node :=
  Pieces.toNodes (apply names ((r.length + 20) * (r.length + 20)) rules (Pieces.ofRun r))

/-- Finishes the texts in a list of elements, and behind them. Elements found behind another are
looked at again, and so are the insides of those found in a text. -/
def finishEach (names : Names) : Nat → List Node → List Node
  | 0, ns => ns
  | _, [] => []
  | fuel + 1, n :: ns =>
    let (text, inside) := if n.isAtomic then (n.text, []) else finish names n.text
    let (tail, behind) := finish names n.tail
    let children :=
      if n.children.isEmpty then inside.map fun c => { c with children := finishEach names fuel c.children }
      else finishEach names fuel (inside ++ n.children)
    { n with text, children, tail } :: finishEach names fuel (behind ++ ns)

end OutlinePage.Markdown.Inline

namespace OutlinePage.Markdown

/-- Finishes all texts of a tree. -/
def Node.finishTexts (names : Names) (size : Nat) (n : Node) : Node :=
  { n with children := Inline.finishEach names (4 * size + 100) n.children }

end OutlinePage.Markdown
