import OutlinePage.Text.Basic

/-!
# Options

How one page is compiled.
-/

namespace OutlinePage

/-- How a file is compiled. -/
structure Options where
  /-- The file that is being read. -/
  file : Text
  /-- Let `script(src=….ts)` name the compiled `.js` file. -/
  convertScripts : Bool := false
  /-- The page's own file while an imported file is read; empty otherwise. Links are changed to
  start from there. -/
  page : Text := []
  /-- Shrink scripts, and leave out where they came from. -/
  final : Bool := false
deriving DecidableEq, Repr

/-- The options for a file imported into this one. -/
def Options.forImport (o : Options) (file : Text) : Options :=
  { o with file, page := if o.page.isEmpty then o.file else o.page }

end OutlinePage
