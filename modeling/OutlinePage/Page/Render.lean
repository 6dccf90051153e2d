import OutlinePage.Element
import OutlinePage.Prose
import OutlinePage.Variables

/-!
# Writing pages

Elements as HTML. Children are indented by one tab per level, and they can use the attributes of all
elements around them as variables, the closest one winning.
-/

namespace OutlinePage.Page

/-- Texts longer than this stand on lines of their own. -/
def longText : Nat := 70

/-- An attribute as it stands in a tag; an empty value is left out. -/
def renderAttribute (vars : Variables) : Text × Text → Text
  | (name, value) =>
    if value.isEmpty then " " ++ name else " " ++ name ++ "=" ++ vars.substitute value

/-- The opening tag. -/
def openTag (vars : Variables) (t : Tag) : Text :=
  let id : Text := match t.id with
    | none => []
    | some i => if i.isEmpty then [] else " id=\"" ++ i ++ "\""
  let classes : Text :=
    if t.classes.isEmpty then [] else " class=\"" ++ Text.join " " t.classes ++ "\""
  "<" ++ t.name ++ t.attributes.entries.flatMap (renderAttribute vars) ++ id ++ classes ++ ">"

/-- The text of a tag as HTML, for a converter from Markdown. -/
def renderText (convert : Text → Text) (vars : Variables) (t : Tag) : Text :=
  match t.text? with
  | none => []
  | some text =>
    let text := vars.substitute text
    if t.isVerbatim then text
    else if text.length > longText then "\n\t" ++ Prose.toHtml convert text ++ "\n"
    else Prose.toHtml convert text

/-- Lines, one level deeper. -/
def indentLines (t : Text) : Text := Text.expand '\n' "\n\t" t

/-- The closing tag, which a void tag does without. -/
def closeTag (t : Tag) (isLeaf : Bool) : Text :=
  if t.isVoid && isLeaf && t.text?.isNone then [] else "</" ++ t.name ++ ">"

mutual

/-- One element as HTML. -/
def renderElement (convert : Text → Text) (vars : Variables) : Element → Text
  | ⟨t, children⟩ =>
    let inner : Text :=
      if children.isEmpty then []
      else
        let lines := Text.join "\n" (renderEach convert (vars.union t.attributes) children)
        "\n\t" ++ indentLines lines ++ "\n"
    openTag vars t ++ renderText convert vars t ++ inner ++ closeTag t children.isEmpty

/-- Each of some elements as HTML. -/
def renderEach (convert : Text → Text) (vars : Variables) : List Element → List Text
  | [] => []
  | e :: es => renderElement convert vars e :: renderEach convert vars es

end

/-- Elements as HTML, for a converter from Markdown and the given variables. -/
def render (convert : Text → Text) (vars : Variables) (elements : List Element) : Text :=
  Text.join "\n" (renderEach convert vars elements)

/-- The text of a tag that is converted from Markdown, if it is. -/
def tagProse (vars : Variables) (t : Tag) : List Text :=
  match t.text? with
  | none => []
  | some text => if t.isVerbatim then [] else [Prose.prepare (vars.substitute text)]

mutual

/-- The texts of one element that are converted from Markdown. -/
def elementProse (vars : Variables) : Element → List Text
  | ⟨t, children⟩ => tagProse vars t ++ eachProse (vars.union t.attributes) children

/-- The texts of some elements that are converted from Markdown. -/
def eachProse (vars : Variables) : List Element → List Text
  | [] => []
  | e :: es => elementProse vars e ++ eachProse vars es

end

end OutlinePage.Page
