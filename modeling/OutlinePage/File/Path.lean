import OutlinePage.Text.Basic

/-!
# Paths

Where a file is, from the root or from the working directory. Empty parts and `.` are dropped when a
path is read, `..` stays.
-/

namespace OutlinePage.File

/-- A path: the slashes it begins with, and its parts. -/
structure Path where
  /-- Nothing for a path from the working directory, else one slash or two. -/
  root : Text := []
  parts : List Text := []
deriving DecidableEq, Repr

namespace Path

/-- The slashes at the beginning that count: exactly two are kept, any other number is one. -/
def rootOf (t : Text) : Text :=
  match (t.takeWhile (· == '/')).length with
  | 0 => []
  | 2 => "//"
  | _ => "/"

/-- The path that a text stands for. -/
def ofText (t : Text) : Path :=
  ⟨rootOf t, (Text.split '/' t).filter fun p => !p.isEmpty && p != "."⟩

/-- The text of a path; the empty one is written `.`. -/
def toText (p : Path) : Text :=
  if p.root.isEmpty && p.parts.isEmpty then "." else p.root ++ Text.join "/" p.parts

/-- Does the path begin at the root? -/
def isRooted (p : Path) : Bool := !p.root.isEmpty

/-- Is there a NUL in the path? -/
def hasNul (p : Path) : Bool := p.parts.any (·.contains '\x00')

/-- The path one part further down. -/
def child (p : Path) (name : Text) : Path := { p with parts := p.parts ++ [name] }

/-- The path that `t` stands for, seen from `p`. A path from the root stays what it is. -/
def join (p : Path) (t : Text) : Path :=
  let q := ofText t
  if q.isRooted then q else { p with parts := p.parts ++ q.parts }

/-- The directory that holds what the path names. -/
def parent (p : Path) : Path := { p with parts := p.parts.dropLast }

/-- The last part. -/
def name (p : Path) : Text := p.parts.getLastD []

/-- A name without its ending: the last dot and what follows, unless nothing precedes or nothing
follows the dot. -/
def stem (name : Text) : Text :=
  let ending := (name.reverse.takeWhile (· != '.')).length
  let before := name.length - ending - 1
  if ending == 0 || ending == name.length || before == 0 then name else name.take before

/-- The path with another ending of its name, unless it has no name. -/
def withEnding (ending : Text) (p : Path) : Option Path :=
  if p.name.isEmpty then none else some (p.parent.child (stem p.name ++ ending))

/-- One part further, from a place given by its names from the root. -/
def step (place : List Text) (part : Text) : List Text :=
  if part = ".." then place.dropLast else place ++ [part]

/-- The names from the root that lead to the path's place, if the working directory is `here`. -/
def resolve (here : List Text) (p : Path) : List Text :=
  p.parts.foldl step (if p.isRooted then [] else here)

/-- The path from the root to a place. -/
def ofPlace (place : List Text) : Path := ⟨"/", place⟩

end Path

end OutlinePage.File
