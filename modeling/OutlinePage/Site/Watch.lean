import OutlinePage.Site.Build

/-!
# Watching a site

After a first build, an observer tells of files that were modified, and a change of an outline or a
watched file calls for a new build. What happens is given as a list of events and the way in which
the watch ends.
-/

namespace OutlinePage.Site

/-- Changes of files: at each place the new contents, or nothing if the file goes away. -/
abbrev Edits := List (File.Place × Option File.Bytes)

/-- The places of the directories above a place. -/
def directoriesAbove (place : File.Place) : List File.Place :=
  (List.range place.length).filterMap fun n => if n == 0 then none else some (place.take n)

/-- The disk after changes made by others, who also make the directories that they need. -/
def edit (d : File.Disk) (edits : Edits) : File.Disk :=
  edits.foldl (fun d (place, contents) =>
    match contents with
    | some bytes =>
      let new := (directoriesAbove place).filter fun p => !d.hasDirectory p
      { d with files := d.files.insert place bytes, directories := d.directories ++ new }
    | none => { d with files := d.files.erase place }) d

/-- Something was modified. -/
structure Event where
  path : File.Path
  isDirectory : Bool := false
  /-- What was modified. -/
  edits : Edits := []

/-- How a watch ends after all events. -/
inductive Ending where
  /-- The observer stops by itself. -/
  | died
  /-- The user interrupts. -/
  | interrupted
deriving DecidableEq, Repr

/-- What is asked of an observer. -/
inductive Request where
  /-- Watch a directory, without those inside it. -/
  | schedule (directory : Text)
  | start
  /-- Wait, for a second or without limit. -/
  | join (isLimited : Bool)
  | stop
deriving DecidableEq, Repr

/-- What calls for a new build: the places of the files, and what is built then. -/
structure Handler where
  places : List File.Place
  config : Config

/-- The place that a path stands for. -/
def placeAt (p : File.Path) : Work File.Place := do
  if p.hasNul then throw (.unreadable (.refused ⟨.nul, p.toText⟩))
  return p.resolve (← get).disk.here

/-- A handler for changes of the given files. -/
def Handler.create (paths : List File.Path) (config : Config) : Work Handler := do
  let places ← paths.mapM placeAt
  report .info "Handler initialized. Monitoring for changes..."
  return { places, config }

/-- Builds again if a modified file is one of the handler's. -/
def Handler.modified (h : Handler) (path : File.Path) (isDirectory : Bool) : Work Unit := do
  if isDirectory then return ()
  let place ← placeAt path
  if h.places.contains place then
    report .info ("Detected modification in: " ++ (File.Path.ofPlace place).toText)
    rebuild h.config

/-- A site with the requests to the observer so far, if there is one. -/
structure Watch where
  site : Construction
  requests : Option (List Request) := none

/-- The work on a site that is watched. -/
abbrev WatchWork := EStateM Fault Watch

/-- A step on the site alone. -/
def onSite {α : Type} (x : Work α) : WatchWork α := fun w =>
  match x w.site with
  | .ok a site => .ok a { w with site }
  | .error f site => .error f { w with site }

/-- Asks something of the observer. -/
def request (r : Request) : WatchWork Unit :=
  modify fun w => { w with requests := some (w.requests.getD [] ++ [r]) }

/-- Waits for the events, one after the other, and then for the ending. -/
def attend (h : Handler) (ending : Ending) : List Event → WatchWork Ending
  | [] => do
    request (.join true)
    return ending
  | e :: es => do
    request (.join true)
    onSite do
      modify fun s => { s with disk := edit s.disk e.edits }
      h.modified e.path e.isDirectory
    attend h ending es

/-- Ends the watch; an observer that is still alive is stopped first. -/
def finish (isAlive : Bool) : WatchWork Unit := do
  if isAlive then request .stop
  request (.join false)
  onSite (report .info "Watcher stopped completely.")

/-- Waits for events and ends the watch, whatever happens. Only work that has no end keeps the watch
from it. -/
def observe (h : Handler) (events : List Event) (ending : Ending) : WatchWork Unit := fun w =>
  match attend h ending events w with
  | .ok .died w => finish false w
  | .ok .interrupted w =>
    (do onSite (report .info "Stopping watcher (Ctrl+C pressed)...")
        finish true) w
  | .error f w =>
    if f.isUnfinished then .error f w
    else match finish true w with
      | .ok _ w => .error f w
      | .error f' w => .error f' w

/-- Schedules the directories that exist, and counts them. -/
def schedule : List File.Place → WatchWork Nat
  | [] => return 0
  | place :: places => do
    let name := (File.Path.ofPlace place).toText
    if (← get).site.disk.hasDirectory place then
      request (.schedule name)
      onSite (report .info ("Scheduled watcher for directory: " ++ name))
      return (← schedule places) + 1
    else
      onSite (report .warning ("Directory '" ++ name ++ "' does not exist. Cannot watch."))
      schedule places

/-- The report that the watch has begun. -/
def watchingMessage (count : Nat) : Text :=
  "Watching for file changes in " ++ Text.ofNat count ++ " director" ++
    (if count == 1 then "y" else "ies") ++ ". Press Ctrl+C to stop."

/-- Builds a site and starts an observer. Without a directory to watch there is no handler. -/
def startWatch (config : Config) : WatchWork (Option Handler) := do
  let paths := (config.pages.keys ++ config.watched).eraseDups
  let places ← onSite (paths.mapM placeAt)
  let directories := (places.map (·.dropLast)).eraseDups
  if directories.isEmpty then
    onSite (report .error "No valid directories provided to watch.")
    return none
  let h ← onSite (Handler.create paths config)
  onSite (rebuild config)
  modify fun w => { w with requests := some [] }
  let count ← schedule directories
  if count == 0 then
    onSite (report .error "No watchers were successfully scheduled. Exiting.")
    return none
  request .start
  onSite (report .info (watchingMessage count))
  return some h

/-- Builds a site, and builds it again at each event that calls for it. -/
def watch (config : Config) (events : List Event) (ending : Ending) : WatchWork Unit := do
  match ← startWatch config with
  | none => return ()
  | some h => observe h events ending

end OutlinePage.Site
