import OutlinePage.Options
import OutlinePage.Outline.Modifiers
import OutlinePage.Route
import OutlinePage.Table
import OutlinePage.Text.Blank
import OutlinePage.Vocabulary

/-!
# Attributes

The parts of the modifiers as classes, id and attributes. Links in an imported file start from that
file; they are changed to start from the page.
-/

namespace OutlinePage.Outline

/-- A character of a link's scheme after its first letter. -/
def isSchemeChar (c : Char) : Bool := Text.isAlnum c || c == '+' || c == '.' || c == '-'

/-- Does the link begin with a scheme, as in `mailto:`? -/
def hasScheme : Text → Bool
  | [] => false
  | c :: r => Text.isLetter c && Text.startsWith ":" (r.dropWhile isSchemeChar)

/-- Links that mean the same from everywhere: those with a scheme, those from the root, fragments,
and those with a variable in them, whose value is not known yet. -/
def isFixedLink (link : Text) : Bool :=
  hasScheme link || Text.startsWith "/" link || Text.startsWith "#" link ||
    Text.hasInfix "@\x7b" link

/-- The link, without quotes, as seen from the page instead of from the file. -/
def linkFrom (page file link : Text) : Text :=
  let way := Route.relative (Route.parent page) (Route.parent file)
  "./" ++ Route.normalize (if way.isEmpty then link else way ++ "/" ++ link)

/-- A link attribute's value in a file imported into `page`. -/
def remapLink (page file value : Text) : Text :=
  let link := Text.unquote value
  if isFixedLink link then value else "\"" ++ linkFrom page file link ++ "\""

/-- The key and the value of a pair; the value is empty if there is no `=`. -/
def readPair (pair : Text) : Text × Text :=
  match Text.cut '=' pair with
  | (key, value) => (Text.strip key, value.getD [])

/-- The value of an attribute of a file: a link is remapped if the file is imported. -/
def attributeValue (o : Options) (key value : Text) : Text :=
  if !value.isEmpty && !o.page.isEmpty && Vocabulary.isLinkAttribute key then
    remapLink o.page o.file value
  else value

/-- Writes one pair into the attributes; a pair without a key is passed over. -/
def addPair (o : Options) (attributes : Table Text Text) (pair : Text) : Table Text Text :=
  match readPair pair with
  | (key, value) =>
    if key.isEmpty then attributes else attributes.insert key (attributeValue o key value)

/-- The inside of an attribute group, which may lack its closing bracket. -/
def groupBody (part : Text) : Text :=
  let body := part.drop 1
  if Text.endsWith ")" part then body.dropLast else body

/-- The attributes in all groups among the parts. -/
def readAttributes (o : Options) (parts : List Text) : Table Text Text :=
  ((parts.filter (Text.startsWith "(")).flatMap fun p => splitPairs (groupBody p)).foldl
    (addPair o) {}

/-- The classes among the parts; a lone `.` is none. -/
def readClasses (parts : List Text) : List Text :=
  (parts.filter fun p => Text.startsWith "." p && p.length > 1).map (·.drop 1)

/-- The first id among the parts. -/
def readId (parts : List Text) : Option Text :=
  (parts.find? (Text.startsWith "#")).map (·.drop 1)

end OutlinePage.Outline
