import OutlinePage.File.Fault
import OutlinePage.Outline.Parser
import OutlinePage.Page.Component
import OutlinePage.Script.Service

/-!
# Working through a document

Imports are replaced by what they name, components are registered and used, shorthands for styles
and scripts are written out, inline scripts are compiled, and elements that belong in the head are
set apart. All of this happens in document order, so a component has to be defined before it is
used.

Components and imports may lead back to themselves. An element that leads to others further inside
takes up room, of which there may be a limit. The elements of an imported file stand on the level of
the import and take up none, so imports that lead to each other go on for ever. How far elements are
followed at all is therefore bounded as well, and work that runs into that bound is unfinished.
-/

namespace OutlinePage.Page

/-- Why a page was not made. -/
inductive Fault where
  /-- A file of the page cannot be read as an outline. -/
  | mistaken (error : SourceError)
  /-- A file named by an import could not be read. -/
  | unreadable (path importer : Text) (fault : File.ReadFault)
  /-- A script could not be compiled. -/
  | script (fault : Script.Fault)
  /-- Elements lead further inside each other than there is room. -/
  | endless
  /-- The work has not come to an end within its reach. -/
  | unfinished
deriving DecidableEq, Repr

/-- What does not change while a page is made. -/
structure Setting where
  /-- The options of the page's own file. -/
  options : Options
  read : File.Reader

/-- What changes while a page is made. -/
structure Desk where
  /-- The components registered so far, by name. -/
  components : Table Text Element := {}
  /-- The paths that were read, in order, whether they could be or not. -/
  reads : List Text := []
  log : Log := []
  scripts : Script.Service

/-- A piece of work on a page, which may fail and keeps what was done until then. -/
abbrev Work := EStateM Fault Desk

/-- Adds a line to the log. -/
def report (level : Level) (message : Text) : Work Unit :=
  modify fun d => { d with log := d.log ++ [⟨level, message⟩] }

/-- What working through elements gives. -/
structure Crawled where
  /-- The elements that stay. -/
  elements : List Element := []
  /-- The external scripts that the elements name. -/
  scripts : List Text := []
  /-- The elements that move to the head. -/
  head : List Element := []

/-- One result after the other. -/
def Crawled.append (a b : Crawled) : Crawled :=
  ⟨a.elements ++ b.elements, a.scripts ++ b.scripts, a.head ++ b.head⟩

/-- Reads the elements of a file's text. -/
def readOutline (source : Text) (options : Options) : Work (List Element) := do
  modify fun d => { d with log := d.log ++ Outline.indentationWarnings source }
  match Outline.read source options with
  | .ok elements => return elements
  | .error e => throw (.mistaken e)

/-- Reads a text from the page's store. -/
def fetch (s : Setting) (path importer : Text) : Work Text := do
  modify fun d => { d with reads := d.reads ++ [path] }
  match s.read path with
  | .ok source => return source
  | .error fault => throw (.unreadable path importer fault)

/-- The path that an import names, from the page's point of view. -/
def importPath (t : Tag) (named : Text) : Text := Route.normalize (Route.parent t.file ++ named)

/-- The elements of the file that an import names. -/
def importElements (s : Setting) (t : Tag) : Work (List Element) := do
  let named := Text.strip (t.text.getD [])
  if named.isEmpty then throw (.mistaken ⟨.missingFile, t.file, t.position⟩)
  let path := importPath t named
  let source ← fetch s path t.file
  report .debug ("Importing " ++ path ++ " into " ++ s.options.file)
  readOutline source (s.options.forImport path)

/-- The script file that a reference to its source leads to after compilation: `.ts` becomes `.js`,
also inside quotes. -/
def compiledName (src : Text) : Text :=
  if Text.endsWith ".ts" src then Text.dropEnd 2 src ++ "js"
  else
    let last := Text.takeEnd 4 src
    if last == ".ts\"" || last == ".ts'" then Text.dropEnd 3 src ++ "js" ++ Text.takeEnd 1 src
    else src

/-- Compiles the text of an inline script. -/
def compileInline (s : Setting) (t : Tag) (source : Text) : Work Text := do
  let d ← get
  let job : Script.Job :=
    if s.options.final then { source, minify := true } else { source, file := some t.file }
  let (result, scripts, log) := d.scripts.compile job
  set { d with scripts, log := d.log ++ log }
  match result with
  | .ok code => return code
  | .error fault => throw (.script fault)

/-- A style sheet in a file of its own is linked. -/
def linkStyle (t : Tag) : Tag :=
  match t.attributes.get? "src" with
  | none => t
  | some src =>
    { t with name := "link", attributes := ⟨[("rel", "\"stylesheet\""), ("href", src)]⟩ }

/-- Writes out the shorthands of a tag, and gives the external script that it names, if any. -/
def expandTag (s : Setting) (t : Tag) : Work (Tag × List Text) := do
  if t.name = "style" then return (linkStyle t, [])
  else if t.name = "script" then
    match t.attributes.get? "src" with
    | some src =>
      let named := Text.unquote src
      let t := if s.options.convertScripts then
        { t with attributes := t.attributes.insert "src" (compiledName src) } else t
      return (t, if named.isEmpty then [] else [named])
    | none =>
      match t.text? with
      | none => return (t, [])
      | some source =>
        let code ← compileInline s t source
        return ({ t with text := some code }, [])
  else return (t, [])

/-- The tag under the name it goes by: `css` is short for `style`. -/
def canonical (t : Tag) : Tag := if t.name = "css" then { t with name := "style" } else t

/-- The template of the component of the given name, if there is one so far. -/
def lookUp (name : Text) : Work (Option Element) := do
  return (← get).components.get? name

/-- Registers a component. -/
def register (definition : Element) : Work Unit := do
  modify fun d =>
    { d with components := d.components.insert definition.name (template definition) }
  report .debug ("Registered component " ++ definition.name ++ " from " ++ definition.tag.file)

/-- How many more levels elements may lead inside; without a number there is no limit. -/
abbrev Room := Option Nat

/-- The room one level further inside. -/
def Room.inner (room : Room) : Room := room.map (· - 1)

/-- Works through one element. `below` works through the elements that it leads to: those of an
imported file on the level of the import, and all others one level further inside. -/
def crawlElement (s : Setting) (inHead : Bool) (below : Room → List Element → Work Crawled)
    (room : Room) (e : Element) : Work Crawled := do
  if Vocabulary.importTags.contains e.name then
    below room (← importElements s e.tag)
  else
    let e := { e with tag := canonical e.tag }
    match ← lookUp e.name with
    | some template =>
      let made := instantiate template e
      let inner ← below room.inner made.children
      return { inner with elements := [{ made with children := inner.elements }] }
    | none =>
      if isDefinition e.tag then
        register e
        return {}
      else
        let (tag, scripts) ← expandTag s e.tag
        let inner ← below room.inner e.children
        let e : Element := ⟨tag, inner.elements⟩
        let scripts := scripts ++ inner.scripts
        if !inHead && Vocabulary.headTags.contains tag.name then
          return ⟨[], scripts, inner.head ++ [e]⟩
        else return ⟨[e], scripts, inner.head⟩

/-- Works through elements one after the other. -/
def crawlEach (one : Element → Work Crawled) : List Element → Work Crawled
  | [] => pure {}
  | e :: es => do
    let first ← one e
    let others ← crawlEach one es
    return first.append others

/-- Works through elements, following them `reach` steps at most. Inside the head nothing is set
apart. -/
def crawl (s : Setting) (inHead : Bool) : (reach : Nat) → Room → List Element → Work Crawled
  | _, _, [] => pure {}
  | 0, _, _ :: _ => throw .unfinished
  | _ + 1, some 0, _ :: _ => throw .endless
  | reach + 1, room, es => crawlEach (crawlElement s inHead (crawl s inHead reach) room) es

end OutlinePage.Page
