import OutlinePage.File.Pattern
import OutlinePage.Yaml.Value

/-!
# Configurations

What to build, as written in a YAML document: which outline becomes which page, which other files
are watched, and how pages are compiled. Paths are seen from the document's directory. What the
document holds is up to a loader.
-/

namespace OutlinePage.Site

/-- What to build. -/
structure Config where
  /-- For each outline, where its page goes. -/
  pages : Table File.Path File.Path := {}
  /-- Further files whose changes call for a new build. -/
  watched : List File.Path := []
  /-- Scripts are shrunk. -/
  final : Bool := false
  /-- Pages refer to compiled scripts. -/
  convertScripts : Bool := false

/-- A mistake in a document that could be read. -/
inductive Mistake where
  /-- It is no mapping. -/
  | notMapping
  /-- It names no pages. -/
  | noPages
  /-- Something among the pages has no source or no destination. -/
  | badPage (shown : Text)
deriving DecidableEq, Repr

/-- Why there is no configuration. -/
inductive ConfigFault where
  /-- The file could not be read. -/
  | unreadable (fault : File.ReadFault)
  /-- The file holds no YAML document. -/
  | document (file : Text) (fault : Yaml.Fault)
  /-- The document of the given file has a mistake. -/
  | mistaken (file : Text) (mistake : Mistake)
  /-- Something of this kind stands where several things are needed. -/
  | notSeveral (kind : Text)
  /-- Something of this kind stands where a path is needed. -/
  | notPath (kind : Text)
  /-- Something of this kind stands where a pattern is needed. -/
  | notPattern (kind : Text)
  /-- Something empty stands where a pattern is needed. -/
  | emptyPattern (shown : Text)
  /-- A pattern is none. -/
  | pattern (fault : File.PatternFault)
deriving DecidableEq, Repr

/-- The wording of a mistake. -/
def Mistake.message : Mistake → Text
  | .notMapping => "expected a mapping at the top level"
  | .noPages => "'write' needs at least one src/dst pair"
  | .badPage shown => "every 'write' entry needs 'src' and 'dst', got " ++ shown

/-- The wording of a fault. -/
def ConfigFault.message : ConfigFault → Text
  | .unreadable fault => fault.message
  | .document file fault => fault.message file
  | .mistaken file mistake => file ++ ": " ++ mistake.message
  | .notSeveral kind => "'" ++ kind ++ "' object is not iterable"
  | .notPath kind => "unsupported operand type(s) for /: 'PosixPath' and '" ++ kind ++ "'"
  | .notPattern kind =>
    if kind = "list" ∨ kind = "tuple" then "intern() argument must be str, not " ++ kind
    else if kind = "bytes" then "a bytes-like object is required, not 'str'"
    else "'" ++ kind ++ "' object is not subscriptable"
  | .emptyPattern shown => "Unacceptable pattern: " ++ shown
  | .pattern fault => fault.message

namespace Config

/-- The values in a value: items, keys, or the characters of a text. -/
def several (v : Yaml.Value) : Except ConfigFault (List Yaml.Value) :=
  match v with
  | .list items => .ok items
  | .dict entries => .ok (entries.map (·.1))
  | .text t => .ok (t.map fun c => .text [c])
  | .other _ _ _ (some items) => .ok items
  | v => .error (.notSeveral v.kind)

/-- The path that a value stands for, seen from a directory. -/
def pathIn (base : File.Path) (v : Yaml.Value) : Except ConfigFault File.Path :=
  match v with
  | .text t => .ok (base.join t)
  | v => .error (.notPath v.kind)

/-- Source and destination of a page. -/
def page (file : Text) (base : File.Path) (v : Yaml.Value) :
    Except ConfigFault (File.Path × File.Path) := do
  let bad : ConfigFault := .mistaken file (.badPage v.render)
  let .dict entries := v | throw bad
  let some source := Yaml.Value.find? "src" entries | throw bad
  let some target := Yaml.Value.find? "dst" entries | throw bad
  let target ← pathIn base target
  let source ← pathIn base source
  return (source, target)

/-- The paths that a value stands for as a pattern, seen from a directory. -/
def matching (d : File.Disk) (base : File.Path) (v : Yaml.Value) :
    Except ConfigFault (List File.Path) :=
  match v with
  | .text t =>
    match File.Pattern.parse t with
    | .ok pattern => .ok (d.matching base pattern)
    | .error fault => .error (.pattern fault)
  | v => .error (if v.isTruthy then .notPattern v.kind else .emptyPattern v.render)

/-- The configuration that a document stands for; `file` is its name in messages. -/
def ofValue (d : File.Disk) (file : Text) (base : File.Path) (v : Yaml.Value) :
    Except ConfigFault Config := do
  let v := if v.isTruthy then v else .dict []
  let .dict entries := v | throw (.mistaken file .notMapping)
  let field (key : Text) : Yaml.Value := (Yaml.Value.find? key entries).getD .null
  let pages := field "write"
  if !pages.isTruthy then throw (.mistaken file .noPages)
  let pages ← (← several pages).mapM (page file base)
  let watch := field "watch"
  let patterns ← if watch.isTruthy then several watch else pure []
  let watched ← patterns.mapM (matching d base)
  return {
    pages := Table.ofList pages
    watched := watched.flatten.eraseDups
    final := (field "final").isTruthy
    convertScripts := (field "convert_script_extension_to_js").isTruthy }

/-- The text of a document. What its bytes end with is decoded on its own, so a fault there counts
its place from the first byte concerned. -/
def readDocument (d : File.Disk) (path : File.Path) : Except File.ReadFault Text :=
  match d.readText path with
  | .error (.undecodable f) =>
    .error (.undecodable (if f.reason = .truncated then { f with start := 0 } else f))
  | r => r

/-- Reads a configuration with the given loader. Without `base`, paths are seen from the document's
directory. -/
def load (loader : Yaml.Loader) (d : File.Disk) (path : File.Path)
    (base : Option File.Path := none) : Except ConfigFault Config :=
  match readDocument d path with
  | .error fault => .error (.unreadable fault)
  | .ok t =>
    match loader t with
    | .error fault => .error (.document path.toText fault)
    | .ok v => ofValue d path.toText (base.getD path.parent) v

end Config

end OutlinePage.Site
