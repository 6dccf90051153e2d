import OutlinePage.Proofs.Hoisting
import OutlinePage.Proofs.PageShape
import OutlinePage.Proofs.Scopes

/-!
# The scope of what moves to the head

An element that moves to the head leaves the scope in which it stood: it is written with the
attributes of the `html` and of the head, and not with those of the elements that were around it.
What is written for it is what its old place would have given as far as the two scopes agree on the
names that it refers to.
-/

namespace OutlinePage.Page

/-! ### Where elements stand -/

mutual

/-- What belongs in the head of an element and of those below it, each with the scope in which it
stands. -/
def standingElement (vars : Variables) : Element → List (Variables × Tag)
  | ⟨tag, children⟩ =>
    standing (vars.union tag.attributes) children ++ if isHeadTag tag then [(vars, tag)] else []

/-- The tags that belong in the head, each with the scope in which it stands: the attributes of all
elements around it, the closest one winning. -/
def standing (vars : Variables) : List Element → List (Variables × Tag)
  | [] => []
  | e :: es => standingElement vars e ++ standing vars es

end

private theorem standing_cons (vars : Variables) (tag : Tag) (children rest : List Element) :
    standing vars (⟨tag, children⟩ :: rest) =
      (standing (vars.union tag.attributes) children ++
        if isHeadTag tag then [(vars, tag)] else []) ++ standing vars rest := rfl

/-- What is taken out of a tree are the tags that stand in it and belong in the head. -/
theorem map_tag_collect (vars : Variables) (es : List Element) :
    (collect es).map (·.tag) = (standing vars es).map (·.2) := by
  induction es using Outline.forest_induction generalizing vars with
  | nil => rfl
  | cons tag children rest ihc ihr =>
    rw [collect_cons, standing_cons, List.map_append, List.map_append, List.map_append,
      List.map_append, ihr vars, ihc (vars.union tag.attributes)]
    cases isHeadTag tag <;> rfl

/-! ### Where elements are written -/

private theorem indentLines_append (a b : Text) :
    indentLines (a ++ b) = indentLines a ++ indentLines b :=
  List.flatMap_append

private theorem renderEach_eq_map (convert : Text → Text) (vars : Variables) (es : List Element) :
    renderEach convert vars es = es.map (renderElement convert vars) := by
  induction es with
  | nil => rfl
  | cons e es ih => exact congrArg (renderElement convert vars e :: ·) ih

/-- What is joined begins with its first piece. -/
theorem exists_join_cons (d p : Text) (ps : List Text) :
    ∃ rest, Text.join d (p :: ps) = p ++ rest := by
  cases ps with
  | nil => exact ⟨[], (List.append_nil p).symm⟩
  | cons q qs => exact ⟨d ++ Text.join d (q :: qs), List.append_assoc p d _⟩

/-- An element begins with its opening tag and its text. -/
theorem exists_renderElement (convert : Text → Text) (vars : Variables) (e : Element) :
    ∃ below, renderElement convert vars e =
      openTag vars e.tag ++ renderText convert vars e.tag ++ below := by
  obtain ⟨tag, children⟩ := e
  rw [renderElement]
  exact ⟨_, List.append_assoc _ _ _⟩

/-- The children of an element are written with its attributes in scope, one level deeper. -/
theorem exists_render_children (convert : Text → Text) (vars : Variables) (tag : Tag)
    (children : List Element) :
    ∃ before after, renderElement convert vars ⟨tag, children⟩ = before ++
      indentLines (Text.join "\n" (renderEach convert (vars.union tag.attributes) children)) ++
        after := by
  cases children with
  | nil => exact ⟨[], renderElement convert vars ⟨tag, []⟩, rfl⟩
  | cons e es =>
    rw [renderElement]
    refine ⟨openTag vars tag ++ renderText convert vars tag ++ "\n\t",
      "\n" ++ closeTag tag false, ?_⟩
    simp [List.append_assoc]

/-- On a page, the children of the head are written with the attributes of the `html` and of the
head in scope, two levels deeper. -/
theorem exists_render_head (convert : Text → Text) (doctype : Element) (html head : Tag)
    (inHead rest : List Element) :
    ∃ before after, render convert {} [doctype, ⟨html, ⟨head, inHead⟩ :: rest⟩] = before ++
      indentLines (indentLines (Text.join "\n" (renderEach convert
        ((Table.union {} html.attributes).union head.attributes) inHead))) ++ after := by
  obtain ⟨before₁, after₁, hhtml⟩ :=
    exists_render_children convert {} html (⟨head, inHead⟩ :: rest)
  obtain ⟨before₂, after₂, hhead⟩ :=
    exists_render_children convert (Table.union {} html.attributes) head inHead
  obtain ⟨others, hjoin⟩ := exists_join_cons "\n"
    (renderElement convert (Table.union {} html.attributes) ⟨head, inHead⟩)
    (renderEach convert (Table.union {} html.attributes) rest)
  refine ⟨renderElement convert {} doctype ++ "\n" ++ before₁ ++ indentLines before₂,
    indentLines after₂ ++ indentLines others ++ after₁, ?_⟩
  rw [render, renderEach, renderEach, renderEach, Text.join, Text.join, hhtml, renderEach, hjoin,
    hhead]
  simp only [indentLines_append, List.append_assoc]

/-! ### From one scope to the other -/

/-- The elements that move to the head of a page are those that stand in the body and belong in the
head, once imports and components are expanded and all tags rewritten. On the page they are written
in the scope of the head, which begins each of them with its opening tag and its text in that scope.
These are the ones of the scope in which the element stood if the two scopes agree on the names that
it refers to. -/
theorem hoisted_in_head_scope {s : Setting} {reach : Nat} {room : Room} {elements : List Element}
    {d d' : Desk}
    {page : Assembled} (hdivs : AllDivs d.components)
    (h : (assemble s reach room elements).run d = .ok page d') :
    let file := s.options.file
    let html := (frame file elements).1
    let children := (frame file elements).2
    let head := firstTag file "head" children
    let body := firstTag file "body" children
    let outer : Variables := Table.union {} html.attributes
    let scope := outer.union head.attributes
    ∃ inHead desk expanded hoisted rest,
      (crawl s true reach room (headChildren children ++ [viewport file])).run d = .ok inHead desk ∧
      expand s reach desk.components [⟨body, bodyChildren children⟩] =
        .ok (expanded, d'.components) ∧
      page.elements = [doctypeElement file,
        ⟨html, ⟨head, inHead.elements ++ inHead.head ++ hoisted⟩ :: rest⟩] ∧
      let stood := standing outer (mapTags (rewritten s.options desk.scripts.answer) expanded)
      hoisted.map (·.tag) = stood.map (·.2) ∧
      ∀ convert,
        (∃ before after, render convert {} page.elements = before ++
          indentLines (indentLines (Text.join "\n"
            ((inHead.elements ++ inHead.head ++ hoisted).map (renderElement convert scope)))) ++
              after) ∧
        (∀ e ∈ hoisted, ∃ below, renderElement convert scope e =
          openTag scope e.tag ++ renderText convert scope e.tag ++ below) ∧
        ∀ place ∈ stood, (∀ name ∈ tagReferences place.2, Variables.AgreeOn scope place.1 name) →
          openTag scope place.2 = openTag place.1 place.2 ∧
            renderText convert scope place.2 = renderText convert place.1 place.2 := by
  intro file html children head body outer scope
  obtain ⟨inHead, desk, inBody, hhead, hbody, hpage⟩ := assemble_eq_ok h
  obtain ⟨expanded, hexpand, rfl, -⟩ := crawl_comesTo hbody (crawl_allDivs hhead hdivs)
  refine ⟨inHead, desk, expanded, _, _, hhead, hexpand, hpage, map_tag_collect outer _, ?_⟩
  intro convert
  refine ⟨?_, fun e _ => exists_renderElement convert scope e, ?_⟩
  · obtain ⟨before, after, hrender⟩ := exists_render_head convert (doctypeElement file) html head
      (inHead.elements ++ inHead.head ++ _) _
    refine ⟨before, after, ?_⟩
    rw [hpage, hrender, renderEach_eq_map]
  · intro place _ hagree
    exact ⟨openTag_congr hagree, renderText_congr convert hagree⟩

/-- The page that an outline gives, as a text, and what is written for the elements that move to its
head if they are written in the scope in which they stood. -/
def pageAndPlaces (source : Text) : Option (Text × List Text) := do
  let elements ← (Outline.read source emptyStore.options).toOption
  let page ← (assemble emptyStore 9 none elements).run' bareDesk
  let (html, children) := frame "index.spl" elements
  let (expanded, _) ← (expand emptyStore 9 {}
    [⟨firstTag "index.spl" "body" children, bodyChildren children⟩]).toOption
  let stood := standing (Table.union {} html.attributes)
    (mapTags (rewritten emptyStore.options bareDesk.scripts.answer) expanded)
  return (render id {} page.elements,
    stood.map fun place => openTag place.1 place.2 ++ renderText id place.1 place.2)

private theorem exists_pageAndPlaces {source text : Text} {places : List Text}
    (h : pageAndPlaces source = some (text, places)) :
    ∃ elements page d' expanded components,
      Outline.read source emptyStore.options = .ok elements ∧
      (assemble emptyStore 9 none elements).run bareDesk = .ok page d' ∧
      expand emptyStore 9 {} [⟨firstTag "index.spl" "body" (frame "index.spl" elements).2,
        bodyChildren (frame "index.spl" elements).2⟩] = .ok (expanded, components) ∧
      render id {} page.elements = text ∧
      (standing (Table.union {} (frame "index.spl" elements).1.attributes)
        (mapTags (rewritten emptyStore.options bareDesk.scripts.answer) expanded)).map
          (fun place => openTag place.1 place.2 ++ renderText id place.1 place.2) = places := by
  obtain ⟨elements, hread, h⟩ := Option.bind_eq_some_iff.mp h
  obtain ⟨page, hrun, h⟩ := Option.bind_eq_some_iff.mp h
  obtain ⟨⟨expanded, components⟩, hexpand, h⟩ := Option.bind_eq_some_iff.mp h
  obtain ⟨d', hrun⟩ := exists_run_of_run' hrun
  cases h
  exact ⟨elements, page, d', expanded, components, toOption_eq_some hread, hrun,
    toOption_eq_some hexpand, rfl, rfl⟩

/-- A title below a `div`, with a variable that an attribute of the `html` gives. -/
theorem hoisted_in_head_scope_at_html_attribute :
    AllDivs bareDesk.components ∧
      ∃ elements page d',
        Outline.read "html(name=x)\n\tbody\n\t\tdiv\n\t\t\ttitle @\x7bname\x7d\n"
          emptyStore.options = .ok elements ∧
        (assemble emptyStore 9 none elements).run bareDesk = .ok page d' ∧
        render id {} page.elements = ("<!DOCTYPE html>\n<html name=x>\n\t<head>\n\t\t" ++
          "<meta name=\"viewport\" content=\"width=device-width,initial-scale=1.0\">\n\t\t" ++
          "<title>x</title>\n\t</head>\n\t<body>\n\t\t<div></div>\n\t</body>\n</html>").toList ∧
        ∃ html head inHead hoisted rest, page.elements = [doctypeElement "index.spl",
            ⟨html, ⟨head, inHead ++ hoisted⟩ :: rest⟩] ∧
          ∀ convert, ∀ e ∈ hoisted, ∃ below,
            renderElement convert ((Table.union {} html.attributes).union head.attributes) e =
              openTag ((Table.union {} html.attributes).union head.attributes) e.tag ++
                renderText convert ((Table.union {} html.attributes).union head.attributes) e.tag ++
                below := by
  have h : pageAndPlaces "html(name=x)\n\tbody\n\t\tdiv\n\t\t\ttitle @\x7bname\x7d\n" =
      some (("<!DOCTYPE html>\n<html name=x>\n\t<head>\n\t\t" ++
          "<meta name=\"viewport\" content=\"width=device-width,initial-scale=1.0\">\n\t\t" ++
          "<title>x</title>\n\t</head>\n\t<body>\n\t\t<div></div>\n\t</body>\n</html>").toList,
        ["<title>x".toList]) := by
    decide +kernel
  obtain ⟨elements, page, d', expanded, components, hread, hrun, -, htext, -⟩ :=
    exists_pageAndPlaces h
  obtain ⟨inHead, desk, expanded', hoisted, rest, -, -, hpage, -, hwritten⟩ :=
    hoisted_in_head_scope allDivs_empty hrun
  exact ⟨allDivs_empty, elements, page, d', hread, hrun, htext, _, _, _, hoisted, rest, hpage,
    fun convert => (hwritten convert).2.1⟩

/-- The title of this outline refers to an attribute of the element around it. On the page the
reference is left as it is, while in the scope in which the title stood it has a value. -/
theorem hoisting_leaves_scope_at_title :
    ∃ elements page d' expanded components,
      Outline.read "div(name=x)\n\ttitle @\x7bname\x7d\n" emptyStore.options = .ok elements ∧
      (assemble emptyStore 9 none elements).run bareDesk = .ok page d' ∧
      expand emptyStore 9 {} [⟨firstTag "index.spl" "body" (frame "index.spl" elements).2,
        bodyChildren (frame "index.spl" elements).2⟩] = .ok (expanded, components) ∧
      render id {} page.elements = ("<!DOCTYPE html>\n<html>\n\t<head>\n\t\t" ++
        "<meta name=\"viewport\" content=\"width=device-width,initial-scale=1.0\">\n\t\t" ++
        "<title>@\x7bname\x7d</title>\n\t</head>\n\t<body>\n\t\t<div name=x></div>\n\t</body>\n" ++
        "</html>").toList ∧
      (standing (Table.union {} (frame "index.spl" elements).1.attributes)
        (mapTags (rewritten emptyStore.options bareDesk.scripts.answer) expanded)).map
          (fun place => openTag place.1 place.2 ++ renderText id place.1 place.2) =
        ["<title>x".toList] := by
  have h : pageAndPlaces "div(name=x)\n\ttitle @\x7bname\x7d\n" =
      some (("<!DOCTYPE html>\n<html>\n\t<head>\n\t\t" ++
        "<meta name=\"viewport\" content=\"width=device-width,initial-scale=1.0\">\n\t\t" ++
        "<title>@\x7bname\x7d</title>\n\t</head>\n\t<body>\n\t\t<div name=x></div>\n\t</body>\n" ++
        "</html>").toList, ["<title>x".toList]) := by
    decide +kernel
  exact exists_pageAndPlaces h

end OutlinePage.Page
