import OutlinePage.File.Disk

/-!
# Patterns for paths

A pattern names files and directories by paths in which `*` stands for any characters, `?` for one,
`[…]` for one of a set, and a part `**` for any number of directories.
-/

namespace OutlinePage.File

/-- Characters from one to another. -/
abbrev Range := Char × Char

/-- A piece of a pattern for a name. -/
inductive Wildcard where
  | exactly (c : Char)
  | anyChar
  | anyText
  /-- One character that is, or is not, in one of the ranges. -/
  | oneOf (isNegated : Bool) (ranges : List Range)
deriving DecidableEq, Repr

namespace Wildcard

/-- The ranges that the inside of brackets names. A hyphen between two characters makes a range. -/
def ranges : Text → List Range
  | a :: '-' :: b :: t => (a, b) :: ranges t
  | a :: t => (a, a) :: ranges t
  | [] => []

/-- The inside of brackets up to the one that closes them, and the rest. A closing bracket that
comes first is one of the set. -/
def inside? (t : Text) : Option (Text × Text) :=
  let start := match t with
    | ']' :: _ => 1
    | _ => 0
  let n := start + ((t.drop start).takeWhile (· != ']')).length
  if n < t.length then some (t.take n, t.drop (n + 1)) else none

/-- The pieces of a pattern for a name. A bracket that is never closed stands for itself. -/
def parse : Nat → Text → List Wildcard
  | 0, _ => []
  | _, [] => []
  | fuel + 1, '*' :: t => .anyText :: parse fuel t
  | fuel + 1, '?' :: t => .anyChar :: parse fuel t
  | fuel + 1, '[' :: t =>
    let (isNegated, set) := match t with
      | '!' :: t => (true, t)
      | t => (false, t)
    match inside? set with
    | some (set, rest) => .oneOf isNegated (ranges set) :: parse fuel rest
    | none => .exactly '[' :: parse fuel t
  | fuel + 1, c :: t => .exactly c :: parse fuel t

/-- Does the piece stand for this one character? -/
def accepts (c : Char) : Wildcard → Bool
  | .exactly d => c == d
  | .anyChar => true
  | .anyText => false
  | .oneOf isNegated ranges => ranges.any (fun r => r.1 ≤ c && c ≤ r.2) != isNegated

/-- The text, and what is left of it after one, two, … of its characters. -/
def ends : Text → List Text
  | [] => [[]]
  | c :: t => (c :: t) :: ends t

/-- Do the pieces stand for the name? -/
def fits : List Wildcard → Text → Bool
  | [], t => t.isEmpty
  | .anyText :: ws, t => (ends t).any (fits ws)
  | _ :: _, [] => false
  | w :: ws, c :: t => w.accepts c && fits ws t

end Wildcard

/-- A part of a pattern for paths. -/
inductive PatternPart where
  /-- A name as it stands. -/
  | name (n : Text)
  /-- Every name that the pieces stand for. -/
  | wild (pieces : List Wildcard)
  /-- The directory itself and all below it. -/
  | deep
deriving DecidableEq, Repr

/-- Why a pattern is none. -/
inductive PatternFault where
  /-- It is empty. -/
  | empty
  /-- It begins at the root. -/
  | rooted
  /-- It names nothing but the directory itself. -/
  | bare
  /-- Two stars stand beside something else. -/
  | stars
deriving DecidableEq, Repr

/-- The wording of a fault. -/
def PatternFault.message : PatternFault → Text
  | .empty => "Unacceptable pattern: ''"
  | .rooted => "Non-relative patterns are unsupported"
  | .bare => "tuple index out of range"
  | .stars => "Invalid pattern: '**' can only be an entire path component"

/-- The meaning of a part of a pattern. -/
def PatternPart.parse (t : Text) : Except PatternFault PatternPart :=
  if t == "**" then .ok .deep
  else if Text.hasInfix "**" t then .error .stars
  else if t.any fun c => c == '*' || c == '?' || c == '[' then .ok (.wild (Wildcard.parse t.length t))
  else .ok (.name t)

/-- A pattern for paths. -/
structure Pattern where
  parts : List PatternPart
  /-- Only directories are meant. -/
  onlyDirectories : Bool
deriving DecidableEq, Repr

/-- The pattern that a text stands for. -/
def Pattern.parse (t : Text) : Except PatternFault Pattern := do
  if t.isEmpty then throw .empty
  let p := Path.ofText t
  if p.isRooted then throw .rooted
  if p.parts.isEmpty then throw .bare
  let parts ← p.parts.mapM PatternPart.parse
  return { parts, onlyDirectories := Text.endsWith "/" t }

namespace Disk

/-- The names in the directory at a path. -/
def namesAt (d : Disk) (p : Path) : List Text :=
  match d.locate p with
  | .ok place => d.namesIn place
  | .error _ => []

/-- The directories at and below a path, at most `fuel` levels down. -/
def directoriesBelow (d : Disk) : Nat → Path → List Path
  | 0, p => [p]
  | fuel + 1, p =>
    p :: ((d.namesAt p).map p.child).flatMap fun q =>
      if d.isDirectory q then directoriesBelow d fuel q else []

/-- The paths that parts of a pattern stand for, seen from a directory. With `inner`, something has
to follow, so that only directories are taken. -/
def select (d : Disk) (onlyDirectories : Bool) : List PatternPart → Path → List Path
  | [], p => [p]
  | part :: parts, p =>
    let inner := onlyDirectories || !parts.isEmpty
    let next := match part with
      | .name n => [p.child n].filter fun q => if inner then d.isDirectory q else d.exists? q
      | .wild pieces =>
        (((d.namesAt p).filter (Wildcard.fits pieces)).map p.child).filter fun q =>
          !inner || d.isDirectory q
      | .deep => d.directoriesBelow (d.directories.length + 1) p
    next.flatMap (select d onlyDirectories parts)

/-- The paths that a pattern stands for, seen from a directory; each of them once. -/
def matching (d : Disk) (base : Path) (pattern : Pattern) : List Path :=
  if d.isDirectory base then (d.select pattern.onlyDirectories pattern.parts base).eraseDups else []

end Disk

end OutlinePage.File
