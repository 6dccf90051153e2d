import OutlinePage.Element
import OutlinePage.Vocabulary

/-!
# Components

A component is an element that is written once and used by its name. Each use gives a fresh element:
the template's, with the attributes, classes and children of the use added.
-/

namespace OutlinePage.Page

/-- Is the tag the definition of a component? -/
def isDefinition (t : Tag) : Bool := t.attributes.contains Vocabulary.componentMarker

/-- The template that a definition leaves: a `div` without the marker. -/
def template (definition : Element) : Element :=
  { definition with
    tag := { definition.tag with
      name := "div"
      attributes := definition.tag.attributes.erase Vocabulary.componentMarker } }

/-- The element for one use of a component. Attributes of the use win, its name becomes a class, and
its children come after the template's. -/
def instantiate (template use : Element) : Element :=
  { tag := { template.tag with
      attributes :=
        (template.tag.attributes.union use.tag.attributes).erase Vocabulary.componentMarker
      classes := [use.tag.name] ++ use.tag.classes ++ template.tag.classes
      line := use.tag.line
      column := use.tag.column }
    children := template.children ++ use.children }

end OutlinePage.Page
