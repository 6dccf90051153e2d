import OutlinePage.Text.Basic

/-!
# Log

What the compiler reports while it works.
-/

namespace OutlinePage

/-- How much a log line matters. -/
inductive Level where
  | debug
  | info
  | warning
  | error
deriving DecidableEq, Repr

/-- Is a line of this level kept? Details are kept only on request. -/
def Level.isKept (verbose : Bool) : Level → Bool
  | .debug => verbose
  | _ => true

/-- One line of the log. -/
structure LogLine where
  level : Level
  message : Text
deriving DecidableEq, Repr

/-- The lines of a log, oldest first. -/
abbrev Log := List LogLine

end OutlinePage
