import OutlinePage.Text.Quoted

/-!
# Arguments

The command line: the configuration's file, `--once` to build and be done, and `-v` to hear more.
Long options may be shortened, short ones joined, and after `--` nothing is an option.
-/

namespace OutlinePage.Site

/-- An option of the command line. -/
inductive Switch where
  | help
  | once
  | verbose
deriving DecidableEq, Repr

/-- The spellings of an option. -/
def Switch.spellings : Switch → List Text
  | .help => ["-h", "--help"]
  | .once => ["--once"]
  | .verbose => ["-v", "--verbose"]

/-- All options. -/
def Switch.all : List Switch := [.help, .once, .verbose]

/-- The option with this spelling. -/
def Switch.named? (t : Text) : Option Switch := Switch.all.find? (·.spellings.contains t)

/-- What the command line asks for. -/
structure Arguments where
  config : Text
  once : Bool := false
  verbose : Bool := false
deriving DecidableEq, Repr

/-- Why the command line is not carried out. -/
inductive Rejection where
  /-- Help was asked for. -/
  | help
  /-- The configuration is missing. -/
  | missing
  /-- These arguments mean nothing. -/
  | unknown (arguments : List Text)
  /-- A value was given to an option that takes none. -/
  | surplus (switch : Switch) (value : Text)
deriving DecidableEq, Repr

/-- The first line of the help text. -/
def usage : Text := "usage: spells [-h] [--once] [-v] config\n"

/-- The help text. -/
def helpText : Text :=
  usage ++ "\nCompiles Spells (.spl) files to HTML\n\npositional arguments:\n  config\n\noptions:\n" ++
    "  -h, --help     show this help message and exit\n" ++
    "  --once         build once and exit instead of watching\n  -v, --verbose\n\n" ++
    "The config file lists src/dst pairs to write and extra files to watch.\n"

/-- What is wrong with the command line, if anything. -/
def Rejection.complaint? : Rejection → Option Text
  | .help => none
  | .missing => some "the following arguments are required: config"
  | .unknown arguments => some ("unrecognized arguments: " ++ Text.join " " arguments)
  | .surplus switch value =>
    some ("argument " ++ Text.join "/" switch.spellings ++ ": ignored explicit argument " ++
      Text.quote value)

/-- What is written to the output and to the error output, and the exit code. -/
def Rejection.response (r : Rejection) : Text × Text × Nat :=
  match r.complaint? with
  | none => (helpText, [], 0)
  | some complaint => ([], usage ++ "spells: error: " ++ complaint ++ "\n", 2)

/-- What one argument is. -/
inductive Argument where
  /-- A value. -/
  | value
  /-- An option, perhaps with a value joined to it; `isShort` if it has one hyphen. -/
  | switch (s : Switch) (isShort : Bool) (joined : Option Text)
  /-- Looks like an option, and is none. -/
  | stranger
deriving DecidableEq, Repr

/-- Is the text a negative number? -/
def isNegativeNumber (t : Text) : Bool :=
  match t with
  | '-' :: r =>
    let whole := r.takeWhile Char.isDigit
    let rest := r.drop whole.length
    (rest.isEmpty && !whole.isEmpty) ||
      (match rest with
        | '.' :: f => !f.isEmpty && f.all Char.isDigit
        | _ => false)
  | _ => false

/-- The text before an equals sign, and the text after it. -/
def cutValue (t : Text) : Text × Option Text := Text.cut '=' t

/-- The option that a shortened long spelling stands for. -/
def longSwitch? (t : Text) : Option Argument :=
  let (name, joined) := cutValue t
  (Switch.all.find? fun s => s.spellings.any (Text.startsWith name ·)).map fun s =>
    .switch s false joined

/-- What an argument is, before `--`. -/
def classify (t : Text) : Argument :=
  match t with
  | '-' :: c :: r =>
    let isShort := c != '-'
    let (name, joined) := cutValue t
    let fallback : Argument :=
      if isNegativeNumber t || t.contains ' ' then .value else .stranger
    match Switch.named? t with
    | some s => .switch s isShort none
    | none =>
      match joined, Switch.named? name with
      | some v, some s => .switch s isShort (some v)
      | _, _ =>
        if isShort then
          match Switch.named? ['-', c] with
          | some s => .switch s true (some r)
          | none => fallback
        else (longSwitch? t).getD fallback
  | _ => .value

/-- The options that are joined to a short option as a value. -/
def joinedSwitches (s : Switch) (isShort : Bool) : Text → Except Rejection (List Switch)
  | [] => .error (.surplus s [])
  | c :: r =>
    match if isShort then Switch.named? ['-', c] else none with
    | none => .error (.surplus s (c :: r))
    | some next =>
      if r.isEmpty then .ok [s, next] else (joinedSwitches next isShort r).map (s :: ·)

/-- What was read of the command line so far. -/
structure Reading where
  config : Option Text := none
  unknown : List Text := []
  once : Bool := false
  verbose : Bool := false

/-- Carries out an option. -/
def Reading.apply (r : Reading) : Switch → Except Rejection Reading
  | .help => .error .help
  | .once => .ok { r with once := true }
  | .verbose => .ok { r with verbose := true }

/-- Takes a value: the first is the configuration. -/
def Reading.take (r : Reading) (t : Text) : Reading :=
  match r.config with
  | none => { r with config := some t }
  | some _ => { r with unknown := r.unknown ++ [t] }

/-- What follows `--` is values. If the configuration is still missing, or was the value right
before, the mark itself is dropped. -/
def Reading.takeRest (r : Reading) (afterConfig : Bool) (values : List Text) : Reading :=
  let isDropped := afterConfig || r.config.isNone && !values.isEmpty
  let r := if isDropped then r else { r with unknown := r.unknown ++ [("--" : Text)] }
  values.foldl Reading.take r

/-- Reads the arguments; `afterConfig` if the one before was the configuration. -/
def Reading.run (r : Reading) (afterConfig : Bool) : List Text → Except Rejection Reading
  | [] => .ok r
  | t :: ts =>
    if t == "--" then .ok (r.takeRest afterConfig ts)
    else match classify t with
      | .value => (r.take t).run r.config.isNone ts
      | .stranger => { r with unknown := r.unknown ++ [t] }.run false ts
      | .switch s isShort joined => do
        let switches ← match joined with
          | none => pure [s]
          | some v => joinedSwitches s isShort v
        let r ← switches.foldlM Reading.apply r
        r.run false ts

/-- What the command line asks for. -/
def Arguments.parse (ts : List Text) : Except Rejection Arguments := do
  let r ← Reading.run {} false ts
  let some config := r.config | throw .missing
  if !r.unknown.isEmpty then throw (.unknown r.unknown)
  return { config, once := r.once, verbose := r.verbose }

end OutlinePage.Site
