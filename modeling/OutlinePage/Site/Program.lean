import OutlinePage.Script.Bundler
import OutlinePage.Site.Arguments
import OutlinePage.Site.Watch

/-!
# The program

Builds a site once, or builds and watches it. If watching fails, the configuration may have to be
mended: the program says so, waits, and starts over.
-/

namespace OutlinePage.Site

/-- How long the program waits before it starts over, in seconds. -/
def patience : Nat := 3

/-- What happens to the program while it runs. -/
structure Circumstances where
  /-- What others change during each wait; if nothing is left, the program is cut off. -/
  waits : List Edits := []
  /-- What the observer tells. -/
  events : List Event := []
  ending : Ending := .died

/-- How the program ends. -/
inductive Exit where
  /-- With an exit code. -/
  | code (n : Nat)
  /-- With a fault that nobody handles. -/
  | broken (fault : Fault)
  /-- Not at all: there is no end to its work. -/
  | never
  /-- From outside. -/
  | cutOff

/-- What a run of the program leaves behind. -/
structure Outcome where
  exit : Exit
  site : Construction
  output : Text := []
  errors : Text := []
  /-- How often the program waited. -/
  waits : Nat := 0
  /-- The requests to each observer. -/
  observers : List (List Request) := []

/-- The configuration, or the fault of a build that has none. -/
def loadConfig (path : Text) : Work Config := do
  let s ← get
  match Config.load s.loader s.disk (File.Path.ofText path) with
  | .ok config => return config
  | .error f => throw (.config f)

/-- Builds a site once. -/
def runOnce (path : Text) (s : Construction) : Outcome :=
  match (do build (← loadConfig path) : Work Unit) s with
  | .ok _ s => { exit := .code 0, site := s }
  | .error f s =>
    if f.isExpected then
      { exit := .code 1, site := { s with log := s.log ++ [⟨.error, f.message⟩] } }
    else { exit := if f.isUnfinished then .never else .broken f, site := s }

/-- What the program says before it starts over. -/
def complaint (f : Fault) : Text :=
  "Error: " ++ f.message ++
    "\nPlease check your configuration and try again, attempting to reload in 3 seconds...\n"

/-- Builds and watches a site once: the fault, if any, the site, and the requests to the observer.
-/
def watchOnce (path : Text) (c : Circumstances) (s : Construction) : Option Fault × Watch :=
  let s := { s with compiler := { s.compiler with scripts := [] } }
  let work : WatchWork Unit := do watch (← onSite (loadConfig path)) c.events c.ending
  match work { site := s } with
  | .ok _ w => (none, w)
  | .error f w => (some f, w)

/-- Builds and watches a site, and starts over after each fault as long as there are waits. -/
def runWatching (path : Text) (c : Circumstances) (waits : List Edits) (o : Outcome) : Outcome :=
  let (fault, w) := watchOnce path c o.site
  let o := { o with site := w.site, observers := o.observers ++ w.requests.toList }
  match fault with
  | none => { o with exit := .code 0 }
  | some f =>
    if f.isUnfinished then { o with exit := .never } else
    let o := { o with output := o.output ++ complaint f, waits := o.waits + 1 }
    match waits with
    | [] => { o with exit := .cutOff }
    | edits :: rest =>
      runWatching path c rest { o with site := { o.site with disk := edit o.site.disk edits } }

/-- Runs the program with the given arguments. -/
def run (arguments : List Text) (c : Circumstances) (s : Construction) : Outcome :=
  match Arguments.parse arguments with
  | .error r =>
    let (output, errors, code) := r.response
    { exit := .code code, site := s, output, errors }
  | .ok a =>
    let o := if a.once then runOnce a.config s
      else runWatching a.config c c.waits { exit := .cutOff, site := s }
    let log := o.site.log.filter fun l => l.level.isKept a.verbose
    { o with site := { o.site with log } }

end OutlinePage.Site
