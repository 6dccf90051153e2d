import OutlinePage.Text.Quoted
import OutlinePage.Text.Utf8

/-!
# File faults

Why a file could not be read, written or made, with the path as it was asked for.
-/

namespace OutlinePage.File

/-- Why the disk refused. -/
inductive Refusal where
  /-- There is no such file or directory. -/
  | missing
  /-- Something of that name is already there. -/
  | present
  /-- A file stands where a directory is needed. -/
  | notDirectory
  /-- A directory stands where a file is needed. -/
  | isDirectory
  /-- The path has a NUL in it, so it is none. -/
  | nul
deriving DecidableEq, Repr

/-- The disk's refusal, with the path. -/
structure Fault where
  refusal : Refusal
  path : Text
deriving DecidableEq, Repr

/-- The wording of a refusal. -/
def Refusal.message : Refusal → Text
  | .missing => "[Errno 2] No such file or directory"
  | .present => "[Errno 17] File exists"
  | .notDirectory => "[Errno 20] Not a directory"
  | .isDirectory => "[Errno 21] Is a directory"
  | .nul => "embedded null byte"

/-- The wording of a fault. -/
def Fault.message (f : Fault) : Text :=
  if f.refusal = .nul then f.refusal.message else f.refusal.message ++ ": " ++ Text.quote f.path

/-- Why a text could not be read. -/
inductive ReadFault where
  /-- The disk refused. -/
  | refused (fault : Fault)
  /-- The bytes are no text. -/
  | undecodable (fault : Utf8.Fault)
  /-- There is no such text, for a reason of the store that was asked. -/
  | unavailable (reason : Text)
deriving DecidableEq, Repr

/-- Was a path refused that is none? -/
def ReadFault.isNul : ReadFault → Bool
  | .refused f => f.refusal == .nul
  | _ => false

/-- The wording of a read fault. -/
def ReadFault.message : ReadFault → Text
  | .refused f => f.message
  | .undecodable f => f.message
  | .unavailable reason => reason

/-- A store of texts, asked by path. -/
abbrev Reader := Text → Except ReadFault Text

end OutlinePage.File
