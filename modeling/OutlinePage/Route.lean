import OutlinePage.Text.Basic

/-!
# Routes

A route is a text of segments with slashes between them: the way to a file, written down. Nothing
here looks at a disk; `.` and `..` are resolved by the text alone.
-/

namespace OutlinePage.Route

/-- The directory that holds the route's last segment, always with a final slash. -/
def parent (route : Text) : Text :=
  match (Text.split '/' route).dropLast with
  | [] => "./"
  | segments => Text.join "/" segments ++ "/"

/-- Where a route leads: so many levels up and then down through named segments, the innermost
first. -/
structure Walk where
  up : Nat := 0
  down : List Text := []
deriving DecidableEq, Repr

/-- One segment further. A `..` undoes the last name, or goes up if there is none; `.` and the empty
segment stay. -/
def Walk.step (w : Walk) (segment : Text) : Walk :=
  if segment = ".." then
    match w.down with
    | [] => { w with up := w.up + 1 }
    | _ :: outer => { w with down := outer }
  else if segment = "." ∨ segment = [] then w
  else { w with down := segment :: w.down }

/-- Where the route leads. -/
def walk (route : Text) : Walk := (Text.split '/' route).foldl Walk.step {}

/-- Does the route begin at the root? -/
def isRooted (route : Text) : Bool := Text.startsWith "/" route

/-- The text of a walk, from the root if `rooted`. -/
def Walk.render (rooted : Bool) (w : Walk) : Text :=
  (if rooted then ("/" : Text) else []) ++ (List.replicate w.up ("../" : Text)).flatten ++
    Text.join "/" w.down.reverse

/-- The route without `.`, without empty segments, and with `..` only at the front. -/
def normalize (route : Text) : Text := (walk route).render (isRooted route)

/-- The segments of a route; the empty route has none. -/
def segments (route : Text) : List Text :=
  if route.isEmpty then [] else Text.split '/' route

/-- Two lists without their common beginning. -/
def dropCommon : List Text → List Text → List Text × List Text
  | a :: s, b :: t => if a = b then dropCommon s t else (a :: s, b :: t)
  | s, t => (s, t)

/-- The route that leads from the directory `source` to `target`. -/
def relative (source target : Text) : Text :=
  let source := normalize source
  let target := normalize target
  if source = target then []
  else
    let (back, ahead) := dropCommon (segments source) (segments target)
    Text.join "/" (back.map (fun _ => (".." : Text)) ++ ahead)

end OutlinePage.Route
