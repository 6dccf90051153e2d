import OutlinePage.File.Fault
import OutlinePage.File.Path
import OutlinePage.Route
import OutlinePage.Table

/-!
# The disk

Files and directories, each found by the names that lead to it from the root, and the working
directory. A path is followed part by part: each part but the last has to be a directory. A path
with a NUL in it is refused before that.
-/

namespace OutlinePage.File

/-- The contents of a file. -/
abbrev Bytes := List UInt8

/-- The names that lead to a file or a directory from the root. -/
abbrev Place := List Text

/-- A disk. The root is always there. -/
structure Disk where
  files : Table Place Bytes := {}
  directories : List Place := []
  /-- The working directory. -/
  here : Place := []

namespace Disk

/-- Is there a directory at the place? -/
def hasDirectory (d : Disk) (place : Place) : Bool := place.isEmpty || d.directories.contains place

/-- What a place refuses to one who wants to go further down from it. -/
def blocked (d : Disk) (place : Place) : Refusal :=
  if d.files.contains place then .notDirectory else .missing

/-- Follows parts from a place. Whether something is at the end is not looked at. -/
def follow (d : Disk) (place : Place) : List Text → Except Refusal Place
  | [] => .ok place
  | part :: parts =>
    if d.hasDirectory place then follow d (Path.step place part) parts else .error (d.blocked place)

/-- The place that a path leads to. -/
def locate (d : Disk) (p : Path) : Except Refusal Place :=
  if p.hasNul then .error .nul else d.follow (if p.isRooted then [] else d.here) p.parts

/-- The contents of the file at a path. -/
def read (d : Disk) (p : Path) : Except Refusal Bytes :=
  match d.locate p with
  | .error r => .error r
  | .ok place =>
    if d.hasDirectory place then .error .isDirectory
    else match d.files.get? place with
      | some bytes => .ok bytes
      | none => .error .missing

/-- Writes a file. Its directory has to be there. -/
def write (d : Disk) (p : Path) (bytes : Bytes) : Except Refusal Disk :=
  match d.locate p with
  | .error r => .error r
  | .ok place =>
    if d.hasDirectory place then .error .isDirectory
    else .ok { d with files := d.files.insert place bytes }

/-- Makes one directory. -/
def makeDirectory (d : Disk) (p : Path) : Except Refusal Disk :=
  match d.locate p with
  | .error r => .error r
  | .ok place =>
    if d.hasDirectory place || d.files.contains place then .error .present
    else .ok { d with directories := d.directories ++ [place] }

/-- Does the path lead to a directory? -/
def isDirectory (d : Disk) (p : Path) : Bool :=
  match d.locate p with
  | .ok place => d.hasDirectory place
  | .error _ => false

/-- Does the path lead to anything? -/
def exists? (d : Disk) (p : Path) : Bool :=
  match d.locate p with
  | .ok place => d.hasDirectory place || d.files.contains place
  | .error _ => false

/-- Makes one directory, unless it is there. -/
def ensureDirectory (d : Disk) (p : Path) : EStateM.Result Fault Disk Unit :=
  match d.makeDirectory p with
  | .ok d => .ok () d
  | .error .missing => .error ⟨.missing, p.toText⟩ d
  | .error r => if d.isDirectory p then .ok () d else .error ⟨r, p.toText⟩ d

/-- Makes a directory and those above it that are missing, at most `fuel` of them. What was made
before a refusal stays. -/
def makeDirectoriesUpTo (d : Disk) : Nat → Path → EStateM.Result Fault Disk Unit
  | 0, p => d.ensureDirectory p
  | fuel + 1, p =>
    match d.makeDirectory p with
    | .error .missing =>
      match makeDirectoriesUpTo d fuel p.parent with
      | .ok _ d => d.ensureDirectory p
      | .error f d => .error f d
    | _ => d.ensureDirectory p

/-- Makes a directory and those above it, as far as they are missing. -/
def makeDirectories (d : Disk) (p : Path) : EStateM.Result Fault Disk Unit :=
  d.makeDirectoriesUpTo p.parts.length p

/-- The names of what is right inside the directory at a place. -/
def namesIn (d : Disk) (place : Place) : List Text :=
  (d.files.keys ++ d.directories).filterMap fun q =>
    if q.dropLast = place then q.getLast? else none

/-- The text in a file, with line feeds for all line ends. -/
def readText (d : Disk) (p : Path) : Except ReadFault Text :=
  match d.read p with
  | .error r => .error (.refused ⟨r, p.toText⟩)
  | .ok bytes =>
    match Utf8.decode bytes with
    | .error f => .error (.undecodable f)
    | .ok t => .ok (Text.unifyNewlines t)

/-- Writes a text to a file. -/
def writeText (d : Disk) (p : Path) (t : Text) : Except Fault Disk :=
  match d.write p (Utf8.encode t) with
  | .error r => .error ⟨r, p.toText⟩
  | .ok d => .ok d

/-- Reads the texts that routes lead to. The text of the route alone says where it leads. -/
def reader (d : Disk) : Reader := fun route => d.readText (Path.ofText (Route.normalize route))

end Disk

end OutlinePage.File
