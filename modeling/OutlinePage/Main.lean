import OutlinePage.Markdown.Convert
import OutlinePage.Site.Program

/-!
# The command line

Takes the files of the working directory and of the configuration's directory in, lets the program
work on them, and writes back what it changed. There is no bundler here, so scripts are copied.
-/

namespace OutlinePage.Site

/-- The place that an absolute path of the system stands for. -/
def placeOf (path : String) : File.Place := (File.Path.ofText path).resolve []

/-- The absolute path of a place. -/
def systemPath (place : File.Place) : String := String.ofList (File.Path.ofPlace place).toText

/-- Takes in an entry of a directory, with all that is inside it. -/
partial def takeEntry (d : File.Disk) (e : IO.FS.DirEntry) : IO File.Disk := do
  let place := placeOf e.path.toString
  match (← e.path.symlinkMetadata).type with
  | .dir =>
    let d := { d with directories := place :: d.directories }
    (← e.path.readDir).foldlM takeEntry d
  | .file => return { d with files := ⟨(place, (← IO.FS.readBinFile e.path).toList) :: d.files.entries⟩ }
  | _ => return d

/-- Takes in everything in the working directory, and in the directory of the configuration. -/
def takeDisk (config : Text) : IO File.Disk := do
  let here ← IO.currentDir
  let place := placeOf here.toString
  let d : File.Disk := { directories := place :: directoriesAbove place, here := place }
  let d ← (← here.readDir).foldlM takeEntry d
  let home := ((File.Path.ofText config).resolve place).dropLast
  if d.hasDirectory home then return d
  try
    let home ← IO.FS.realPath (systemPath home)
    let place := placeOf home.toString
    let d := { d with directories := place :: directoriesAbove place ++ d.directories }
    (← home.readDir).foldlM takeEntry d
  catch _ => return d

/-- Writes the files that differ from those of an earlier disk. -/
def storeChanges (old new : File.Disk) : IO Unit := do
  for place in new.directories do
    unless old.hasDirectory place do IO.FS.createDirAll (systemPath place)
  for (place, bytes) in new.files.entries do
    unless old.files.get? place == some bytes do
      IO.FS.writeBinFile (systemPath place) (ByteArray.mk bytes.toArray)

/-- Prints the lines of a log that are kept. -/
def printLog (verbose : Bool) (log : Log) : IO Unit := do
  for l in log do
    if l.level.isKept verbose then IO.eprintln (String.ofList l.message)

/-- A site with the files of the disk. -/
def openSite (config : Text) : IO Construction := do
  return {
    disk := ← takeDisk config
    compiler := { service := Script.Bundler.service {} none }
    convert := Markdown.toHtml?
    loader := Yaml.load }

/-- Stores what some work changed, prints what it reported, and gives the site without its log. -/
def settle (verbose : Bool) (old : File.Disk) (s : Construction) : IO Construction := do
  storeChanges old s.disk
  printLog verbose s.log
  return { s with log := [] }

/-- The program does not end, and says so. -/
def neverEnding : IO.Error := IO.userError "The imports of a page do not come to an end."

/-- Does the work that each file asks for whose contents changed. -/
def attendChanges (h : Handler) (old : File.Disk) (s : Construction) : Option Fault × Construction :=
  let changed := h.places.filter fun p => old.files.get? p != s.disk.files.get? p
  let work : Work Unit := changed.forM fun p => h.modified (File.Path.ofPlace p) false
  match work s with
  | .ok _ s => (none, s)
  | .error f s => (some f, s)

/-- Looks for changes once a second until some work has a fault. -/
partial def attendForever (verbose : Bool) (config : Text) (h : Handler) (s : Construction) : IO Fault := do
  IO.sleep 1000
  let disk ← takeDisk config
  let (fault, s') := attendChanges h s.disk { s with disk }
  let s' ← settle verbose disk s'
  match fault with
  | some f => return f
  | none => attendForever verbose config h s'

/-- Builds and watches a site, and starts over after each fault. -/
partial def watchForever (a : Arguments) (service : Script.Service) : IO UInt32 := do
  let s ← openSite a.config
  let s := { s with compiler := { service } }
  let work : WatchWork (Option Handler) := do startWatch (← onSite (loadConfig a.config))
  let restart (f : Fault) (service : Script.Service) : IO UInt32 := do
    if f.isUnfinished then throw neverEnding
    IO.print (String.ofList (complaint f))
    IO.sleep (patience * 1000).toUInt32
    watchForever a service
  match work { site := s } with
  | .error f w =>
    let s ← settle a.verbose s.disk w.site
    restart f s.compiler.service
  | .ok none w =>
    discard <| settle a.verbose s.disk w.site
    return 0
  | .ok (some h) w =>
    let s ← settle a.verbose s.disk w.site
    let f ← attendForever a.verbose a.config h s
    restart f s.compiler.service

/-- Builds a site once. -/
def buildOnce (a : Arguments) : IO UInt32 := do
  let s ← openSite a.config
  let o := runOnce a.config s
  discard <| settle a.verbose s.disk o.site
  match o.exit with
  | .code n => return n.toUInt32
  | .broken f => throw (IO.userError (String.ofList f.message))
  | .never => throw neverEnding
  | .cutOff => return 1

end OutlinePage.Site

open OutlinePage in
/-- The program. -/
def main (arguments : List String) : IO UInt32 := do
  match Site.Arguments.parse (arguments.map String.toList) with
  | .error r =>
    let (output, errors, code) := r.response
    IO.print (String.ofList output)
    IO.eprint (String.ofList errors)
    return code.toUInt32
  | .ok a =>
    if a.once then Site.buildOnce a
    else Site.watchForever a (Script.Bundler.service {} none)
