import OutlinePage.Page.Assembly
import OutlinePage.Page.Render

/-!
# Compiling pages

From the text of an outline to the text of a page. Mistakes in the outlines and imports that cannot
be read are faults of the compilation. Any other fault is reported and gives an empty page, also
that of an import whose path is none. Imports that lead back to themselves are followed without an
end, so no page comes of them; here they are followed as far as the compiler reaches.
-/

namespace OutlinePage.Page

/-- How many levels elements may lead inside. -/
def depthLimit : Nat := 900

/-- How far a compiler follows elements, unless it is told otherwise. -/
def usualReach : Nat := 10000

/-- The wording of an unreadable import. -/
def importMessage (path importer reason : Text) : Text :=
  "Could not import " ++ path ++ " (from " ++ importer ++ "): " ++ reason

/-- The wording of a fault. -/
def Fault.message : Fault → Text
  | .mistaken e => e.message
  | .unreadable path importer fault => importMessage path importer fault.message
  | .script fault => fault.message
  | .endless => []
  | .unfinished => []

/-- Does the fault end a compilation, instead of giving an empty page? -/
def Fault.isFatal : Fault → Bool
  | .mistaken _ => true
  | .unreadable _ _ fault => !fault.isNul
  | .script _ => false
  | .endless => false
  | .unfinished => true

/-- A compiler: its script service, and the external scripts that the page compiled last names. -/
structure Compiler where
  service : Script.Service
  scripts : List Text := []
  /-- How far elements are followed. A page that is finished within one reach is the same within
  every greater one. -/
  reach : Nat := usualReach

/-- What a compilation gives. -/
structure Compilation where
  result : Except Fault Text
  /-- The compiler afterwards. -/
  compiler : Compiler
  /-- The paths that were read. -/
  reads : List Text
  log : Log

/-- The work of compiling a page. -/
def compileWork (s : Setting) (reach : Nat) (source : Text) : Work Assembled := do
  let elements ← readOutline source s.options
  assemble s reach (some depthLimit) elements

/-- A converter from Markdown to HTML, which may give up on a text. -/
abbrev Converter := Text → Option Text

/-- Elements as HTML, for the given variables, unless the converter gives up on one of their
texts. -/
def render? (convert : Converter) (vars : Variables) (elements : List Element) : Option Text :=
  if (eachProse vars elements).all fun t => (convert t).isSome then
    some (render (fun t => (convert t).getD []) vars elements)
  else none

/-- The report that a page is left empty. -/
def emptyPageLine (options : Options) (source : Text) : LogLine :=
  ⟨.error, "Tried compiling " ++ options.file ++ ":\n" ++ source⟩

/-- Compiles a page, for a converter from Markdown. The scripts are known before the page is
written. -/
def Compiler.compile (c : Compiler) (convert : Converter) (read : File.Reader) (source : Text)
    (options : Options) : Compilation :=
  match (compileWork ⟨options, read⟩ c.reach source).run { scripts := c.service } with
  | .ok page d =>
    let compiler := { c with service := d.scripts, scripts := page.scripts }
    match render? convert {} page.elements with
    | some html => { result := .ok html, compiler, reads := d.reads, log := d.log }
    | none =>
      { result := .ok [], compiler, reads := d.reads
        log := d.log ++ [emptyPageLine options source] }
  | .error fault d =>
    let compiler := { c with service := d.scripts, scripts := [] }
    if fault.isFatal then { result := .error fault, compiler, reads := d.reads, log := d.log }
    else
      { result := .ok [], compiler, reads := d.reads
        log := d.log ++ [emptyPageLine options source] }

/-- What a compiler is asked for. -/
inductive Request where
  /-- The page of an outline. -/
  | source (source : Text) (options : Options)
  /-- The page of the outline in a file. -/
  | file (path : Text) (convertScripts final : Bool)

/-- Why a request was not met. -/
inductive Refusal where
  /-- The page could not be compiled. -/
  | page (fault : Fault)
  /-- The outline could not be read. -/
  | unreadable (fault : File.ReadFault)

/-- What a request gives. -/
structure Response where
  result : Except Refusal Text
  /-- The compiler afterwards. -/
  compiler : Compiler
  /-- The paths that were read. -/
  reads : List Text
  log : Log

/-- The response that a compilation gives after some reads. -/
def Compilation.respond (made : Compilation) (reads : List Text) : Response where
  result := made.result.mapError .page
  compiler := made.compiler
  reads := reads ++ made.reads
  log := made.log

/-- Reads and compiles a page. -/
def Compiler.compileFile (c : Compiler) (convert : Converter) (read : File.Reader) (path : Text)
    (convertScripts final : Bool) : Response :=
  match read path with
  | .error fault =>
    { result := .error (.unreadable fault), compiler := c, reads := [path], log := [] }
  | .ok source =>
    (c.compile convert read source { file := path, convertScripts, final }).respond [path]

/-- Does what is asked for. -/
def Compiler.serve (c : Compiler) (convert : Converter) (read : File.Reader) : Request → Response
  | .source source options => (c.compile convert read source options).respond []
  | .file path convertScripts final => c.compileFile convert read path convertScripts final

end OutlinePage.Page
