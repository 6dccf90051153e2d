import OutlinePage.Page.Compile
import OutlinePage.Site.Config

/-!
# Building a site

Each page of a configuration is compiled and written, and then the scripts that it names are
compiled and written next to it. The first fault ends the build; what was written before stays.
-/

namespace OutlinePage.Site

/-- Why a build ended. -/
inductive Fault where
  /-- There is no configuration. -/
  | config (fault : ConfigFault)
  /-- A page could not be compiled. -/
  | page (fault : Page.Fault)
  /-- The outline of a page, or a script, could not be read or found. -/
  | unreadable (fault : File.ReadFault)
  /-- A page or a script could not be written. -/
  | unwritable (fault : File.Fault)
  /-- A script could not be compiled. -/
  | script (fault : Script.Fault)
  /-- The path of a script has no name that could get another ending. -/
  | nameless (path : File.Path)

namespace Fault

/-- The wording of a fault. -/
def message : Fault → Text
  | .config fault => fault.message
  | .page fault => fault.message
  | .unreadable fault => fault.message
  | .unwritable fault => fault.message
  | .script fault => fault.message
  | .nameless path => "PosixPath(" ++ Text.quote path.toText ++ ") has an empty name"

/-- Is a fault of reading one of the disk? -/
def isOfDisk : File.ReadFault → Bool
  | .refused f => f.refusal != .nul
  | _ => false

/-- Has the work not come to an end? -/
def isUnfinished : Fault → Bool
  | .page .unfinished => true
  | _ => false

/-- Is the fault one that builds are expected to end with: a mistake in the inputs that has a name
of its own, or a refusal of the disk? Such a fault is reported, and any other goes on to the caller.
-/
def isExpected : Fault → Bool
  | .config (.mistaken ..) => true
  | .config (.unreadable f) => isOfDisk f
  | .config _ => false
  | .page .unfinished => false
  | .page _ => true
  | .unreadable f => isOfDisk f
  | .unwritable f => f.refusal != .nul
  | .script .crashed => false
  | .script _ => true
  | .nameless _ => false

end Fault

/-- A site under construction. -/
structure Construction where
  disk : File.Disk
  compiler : Page.Compiler
  /-- How Markdown becomes HTML. -/
  convert : Page.Converter
  /-- How YAML is loaded. -/
  loader : Yaml.Loader
  log : Log := []

/-- The work on a site. -/
abbrev Work := EStateM Fault Construction

/-- Adds a line to the log. -/
def report (level : Level) (message : Text) : Work Unit :=
  modify fun s => { s with log := s.log ++ [⟨level, message⟩] }

/-- The text that a route leads to. -/
def readRoute (route : Text) : Work Text := do
  match (← get).disk.reader route with
  | .ok t => return t
  | .error f => throw (.unreadable f)

/-- The fault of a build for which a page was refused. -/
def Fault.ofRefusal : Page.Refusal → Fault
  | .page f => .page f
  | .unreadable f => .unreadable f

/-- Writes a text, with the directories that it needs. -/
def writeFile (path : File.Path) (t : Text) : Work Unit := do
  match (← get).disk.makeDirectories path.parent with
  | .error f disk =>
    modify fun s => { s with disk }
    throw (.unwritable f)
  | .ok _ disk => modify fun s => { s with disk }
  match (← get).disk.writeText path t with
  | .error f => throw (.unwritable f)
  | .ok disk => modify fun s => { s with disk }
  report .info ("Wrote " ++ path.toText)

/-- Reads and compiles a page. -/
def compileFile (route : Text) (convertScripts final : Bool) : Work Text := do
  let s ← get
  let r := s.compiler.compileFile s.convert s.disk.reader route convertScripts final
  set { s with compiler := r.compiler, log := s.log ++ r.log }
  match r.result with
  | .ok html => return html
  | .error f => throw (.ofRefusal f)

/-- Does a reference lead outside of the site: to an address with a scheme, or from the root? -/
def isExternal (script : Text) : Bool :=
  Outline.hasScheme script || Text.startsWith "/" script

/-- Where the compiled script goes that the page at `target` names. -/
def scriptTarget? (target : File.Path) (script : Text) : Option File.Path :=
  (target.parent.join script).withEnding ".js"

/-- A file that is to be written. -/
structure Output where
  path : File.Path
  text : Text
deriving DecidableEq, Repr

/-- What is asked of the script service for a script in a file. -/
def scriptJob (config : Config) (path : File.Path) (code : Text) : Script.Job :=
  { source := code
    file := if config.final then none else some path.toText
    minify := config.final }

/-- Compiles a script that the page at `target`, made from `source`, names. Nothing is to be written
for a script outside of the site. -/
def compileScript (source target : File.Path) (script : Text) (config : Config) :
    Work (Option Output) := do
  if isExternal script then return none
  let path := source.parent.join script
  let some output := scriptTarget? target script | throw (.nameless (target.parent.join script))
  let s ← get
  let code ← match s.disk.readText path with
    | .ok t => pure t
    | .error f => throw (.unreadable f)
  let (result, service, log) := s.compiler.service.compile (scriptJob config path code)
  set { s with compiler := { s.compiler with service }, log := s.log ++ log }
  match result with
  | .ok compiled => return some ⟨output, compiled⟩
  | .error f => throw (.script f)

/-- Compiles and writes a script that the page at `target`, made from `source`, names. -/
def buildScript (source target : File.Path) (script : Text) (config : Config) : Work Unit := do
  match ← compileScript source target script config with
  | none => return ()
  | some output => writeFile output.path output.text

/-- Compiles one page and its scripts. -/
def buildPage (config : Config) (page : File.Path × File.Path) : Work Unit := do
  let html ← compileFile page.1.toText config.convertScripts config.final
  writeFile page.2 html
  (← get).compiler.scripts.forM fun script => buildScript page.1 page.2 script config

/-- Compiles all pages and their scripts. -/
def build (config : Config) : Work Unit :=
  config.pages.entries.forM (buildPage config)

/-- Builds again after a change. An expected fault is reported. -/
def rebuild (config : Config) : Work Unit := fun s =>
  match build config s with
  | .ok _ s => .ok () s
  | .error f s => if f.isExpected then report .error f.message s else .error f s

end OutlinePage.Site
