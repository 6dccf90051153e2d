import OutlinePage.Page.Crawl

/-!
# The shape of a page

A page is a doctype and one `html` element, which holds one head and then one body. What is written
in an outline is brought into that shape: elements that belong in the head go there, and all others
into the body.
-/

namespace OutlinePage.Page

/-- The element that makes a page fit the width of its device. -/
def viewport (file : Text) : Element :=
  { tag := {
      name := "meta"
      file
      attributes := ⟨[("name", "\"viewport\""),
        ("content", "\"width=device-width,initial-scale=1.0\"")]⟩
      isVoid := true } }

/-- The doctype of a page. -/
def doctypeElement (file : Text) : Element :=
  { tag := { name := Vocabulary.doctype, file, isVoid := true } }

/-- An `html` element as it was written, or a new one, and the elements that stand in it: those next
to a written one move inside. -/
def frame (file : Text) (elements : List Element) : Tag × List Element :=
  match elements.dropWhile (!·.isNamed "html") with
  | [] => ({ name := "html", file }, elements)
  | html :: after =>
    (html.tag, elements.takeWhile (!·.isNamed "html") ++ html.children ++ after)

/-- The first tag of the given name among the elements, or a new one. -/
def firstTag (file name : Text) (elements : List Element) : Tag :=
  ((elements.find? (·.isNamed name)).map (·.tag)).getD { name, file }

/-- The children of all heads among the elements. -/
def headChildren (elements : List Element) : List Element :=
  (elements.filter (·.isNamed "head")).flatMap (·.children)

/-- The children of all bodies, and all elements that are neither head nor body, in order. -/
def bodyChildren (elements : List Element) : List Element :=
  elements.flatMap fun e =>
    if e.isNamed "body" then e.children else if e.isNamed "head" then [] else [e]

/-- A page in shape. -/
structure Assembled where
  elements : List Element
  /-- The external scripts that the page names, those of the head first. -/
  scripts : List Text

/-- Brings elements into the shape of a page and works through them, the head first. -/
def assemble (s : Setting) (reach : Nat) (room : Room) (elements : List Element) :
    Work Assembled := do
  let file := s.options.file
  let (html, children) := frame file elements
  let head := firstTag file "head" children
  let body := firstTag file "body" children
  let inHead ← crawl s true reach room (headChildren children ++ [viewport file])
  let inBody ← crawl s false reach room [⟨body, bodyChildren children⟩]
  let headElement : Element := ⟨head, inHead.elements ++ inHead.head ++ inBody.head⟩
  return {
    elements := [doctypeElement file, ⟨html, headElement :: inBody.elements⟩]
    scripts := inHead.scripts ++ inBody.scripts }

end OutlinePage.Page
