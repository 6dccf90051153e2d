import OutlinePage.Text.Quoted

/-!
# Faults of YAML documents

Why a document could not be read, and where.
-/

namespace OutlinePage.Yaml

/-- A place in a document; lines and columns count from zero. -/
structure Mark where
  line : Nat := 0
  column : Nat := 0
deriving DecidableEq, Repr, Inhabited

/-- What was being read when a problem came up. -/
structure Context where
  activity : Text
  /-- Where that began. -/
  mark : Option Mark
deriving DecidableEq, Repr

/-- Why a document could not be read. -/
inductive Fault where
  /-- A problem at a place. -/
  | misplaced (context : Option Context) (problem : Text) (mark : Mark)
  /-- A character that no document may hold, and its offset. -/
  | unprintable (c : Char) (offset : Nat)
  /-- A number or a date that does not exist. -/
  | noSuchValue (reason : Text)
deriving DecidableEq, Repr

/-- The wording of a place in the document of the given name. -/
def Mark.message (name : Text) (m : Mark) : Text :=
  "  in \"" ++ name ++ "\", line " ++ Text.ofNat (m.line + 1) ++ ", column " ++
    Text.ofNat (m.column + 1)

/-- The wording of a fault in the document of the given name. -/
def Fault.message (name : Text) : Fault → Text
  | .misplaced context problem mark =>
    let before : List Text := match context with
      | none => []
      | some c => match c.mark with
        | some m => if m = mark then [c.activity] else [c.activity, m.message name]
        | none => [c.activity]
    Text.join "\n" (before ++ [problem, mark.message name])
  | .unprintable c offset =>
    "unacceptable character #x" ++ Text.hex 4 c.toNat ++ ": special characters are not allowed\n  in \"" ++
      name ++ "\", position " ++ Text.ofNat offset
  | .noSuchValue reason => reason

end OutlinePage.Yaml
