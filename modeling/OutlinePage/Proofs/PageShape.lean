import OutlinePage.Page.Assembly
import OutlinePage.Proofs.Crawling

/-!
# The shape of an assembled page

An assembled page is a doctype and one `html`, which begins with the head. The body is worked
through like any other element, so it comes next only if it is not taken for a component: with a
component of the name `body` from the head there is a `div` in its place, and a body that is itself
marked as a definition is missing from the page.
-/

namespace OutlinePage.Page

/-- A doctype and one `html`, which holds a head and then a body. -/
def InShape (elements : List Element) : Prop :=
  ∃ doctype html head body, elements = [doctype, html] ∧ html.children = [head, body] ∧
    doctype.name = Vocabulary.doctype ∧ html.name = "html" ∧ head.name = "head" ∧ body.name = "body"

/-- The names of what a body leaves when these components are registered. -/
def bodyNames (components : Table Text Element) (body : Tag) : List Text :=
  if components.contains "body" then ["div"] else if isDefinition body then [] else ["body"]

private theorem bodyNames_eq_iff (components : Table Text Element) (body : Tag) :
    bodyNames components body = ["body".toList] ↔
      components.contains "body" = false ∧ isDefinition body = false := by
  rw [bodyNames]
  cases components.contains "body" <;> cases isDefinition body <;> decide

/-- With a doctype, an `html` and its head in place, the shape is a matter of what follows. -/
theorem inShape_iff (file : Text) {html head : Tag} {inHead rest : List Element}
    (hhtml : html.name = "html") (hhead : head.name = "head") :
    InShape [doctypeElement file, ⟨html, ⟨head, inHead⟩ :: rest⟩] ↔
      rest.map (·.name) = ["body".toList] := by
  constructor
  · rintro ⟨_, _, _, body, helements, hchildren, -, -, -, hbody⟩
    cases helements
    cases hchildren
    exact congrArg (fun name => [name]) hbody
  · intro hrest
    obtain ⟨body, rfl, hbody⟩ := List.map_eq_singleton_iff.mp hrest
    exact ⟨_, _, _, body, rfl, rfl, rfl, hhtml, hhead, hbody⟩

private theorem isNamed_iff (name : Text) (e : Element) :
    e.isNamed name = true ↔ e.tag.name = name := beq_iff_eq

/-- The tag around a page is an `html`. -/
theorem frame_name (file : Text) (elements : List Element) :
    (frame file elements).1.name = "html" := by
  rw [frame]
  split
  · rfl
  · next html after h =>
    have hnot := List.head?_dropWhile_not (fun e : Element => !e.isNamed "html") elements
    rw [h] at hnot
    exact (isNamed_iff _ html).mp (by simpa using hnot)

/-- The tag that is looked for has the name that is asked for. -/
theorem firstTag_name (file name : Text) (elements : List Element) :
    (firstTag file name elements).name = name := by
  rw [firstTag]
  cases h : elements.find? (·.isNamed name) with
  | none => rfl
  | some e => exact (isNamed_iff name e).mp (List.find?_some h)

private theorem known_body {body : Tag} (hname : body.name = "body") (children : List Element) :
    known ⟨body, children⟩ = ⟨body, children⟩ := by
  have hbody : canonical body = body := if_neg (by rw [hname]; decide)
  rw [known, hbody]

/-- What working through the body leaves. -/
theorem crawl_body {s : Setting} {reach : Nat} {room : Room} {body : Tag}
    {children : List Element} {d d' : Desk} {r : Crawled} (hname : body.name = "body")
    (hdivs : AllDivs d.components)
    (h : (crawl s false reach room [⟨body, children⟩]).run d = .ok r d') :
    r.elements.map (·.name) = bodyNames d.components body := by
  cases reach with
  | zero => exact absurd h crawl_zero_cons
  | succ reach =>
    obtain ⟨-, r₁, d₁, r₂, hone, hothers, rfl⟩ := crawl_cons.mp h
    rw [crawl_nil] at hothers
    cases hothers
    have hknown := known_body hname children
    have hget : d.components.get? (known ⟨body, children⟩).name = d.components.get? "body" := by
      rw [hknown, ← hname]
      rfl
    rw [bodyNames, Table.contains]
    cases hone with
    | imported himport =>
      rw [Element.name, hname] at himport
      cases himport
    | used _ hsome _ =>
      rw [hget] at hsome
      have hdiv := hdivs.name_eq hsome
      rw [hsome]
      exact congrArg (fun name => [name]) hdiv
    | defined _ hnone hdefinition =>
      rw [hget] at hnone
      rw [hknown] at hdefinition
      rw [hnone, hdefinition]
      rfl
    | kept _ hnone hdefinition hexpand _ =>
      rw [hget] at hnone
      rw [hknown] at hdefinition hexpand
      rw [expandTag_of_plain s (by rw [hname]; decide) (by rw [hname]; decide)] at hexpand
      obtain ⟨htag, -⟩ := run_pure_eq_ok.mp hexpand
      cases htag
      have hhead : Vocabulary.headTags.contains body.name = false := by
        rw [hname]
        decide
      rw [hnone, hdefinition, placed, hhead, Bool.and_false]
      exact congrArg (fun name => [name]) hname

/-- What assembling a page is made of. -/
theorem assemble_eq_ok {s : Setting} {reach : Nat} {room : Room} {elements : List Element}
    {d d' : Desk} {page : Assembled} (h : (assemble s reach room elements).run d = .ok page d') :
    let file := s.options.file
    let children := (frame file elements).2
    ∃ inHead desk inBody,
      (crawl s true reach room (headChildren children ++ [viewport file])).run d = .ok inHead desk ∧
      (crawl s false reach room [⟨firstTag file "body" children, bodyChildren children⟩]).run desk =
        .ok inBody d' ∧
      page.elements = [doctypeElement file, ⟨(frame file elements).1,
        ⟨firstTag file "head" children, inHead.elements ++ inHead.head ++ inBody.head⟩ ::
          inBody.elements⟩] := by
  intro file children
  obtain ⟨inHead, desk, hhead, h⟩ := run_bind_eq_ok.mp h
  obtain ⟨inBody, d₁, hbody, hret⟩ := run_bind_eq_ok.mp h
  obtain ⟨rfl, rfl⟩ := run_pure_eq_ok.mp hret
  exact ⟨inHead, desk, inBody, hhead, hbody, rfl⟩

/-- A page is in shape exactly if, once its head is worked through, its body is not taken for a
component: no component of the name `body` is registered, and the body is no definition itself. In
any case it is a doctype and one `html` that begins with the head; in place of the body there is a
`div` where such a component is registered, and nothing where the body is a definition. -/
theorem page_shape_iff {s : Setting} {reach : Nat} {room : Room} {elements : List Element}
    {d d' : Desk} {page : Assembled} (hdivs : AllDivs d.components)
    (h : (assemble s reach room elements).run d = .ok page d') :
    let file := s.options.file
    let children := (frame file elements).2
    let body := firstTag file "body" children
    ∃ inHead desk,
      (crawl s true reach room (headChildren children ++ [viewport file])).run d = .ok inHead desk ∧
      (InShape page.elements ↔
        desk.components.contains "body" = false ∧ isDefinition body = false) ∧
      ∃ html, page.elements = [doctypeElement file, html] ∧ html.name = "html" ∧
        html.children.map (·.name) = "head".toList :: bodyNames desk.components body := by
  intro file children body
  obtain ⟨inHead, desk, inBody, hhead, hbody, hpage⟩ := assemble_eq_ok h
  have hnames := crawl_body (firstTag_name file "body" children) (crawl_allDivs hhead hdivs) hbody
  have hhtml := frame_name file elements
  have hfirst := firstTag_name file "head" children
  refine ⟨inHead, desk, hhead, ?_, _, hpage, hhtml, ?_⟩
  · rw [hpage, inShape_iff file hhtml hfirst, hnames, bodyNames_eq_iff]
  · rw [List.map_cons, hnames]
    exact congrArg (· :: _) hfirst

/-- A store without files. -/
def emptyStore : Setting := ⟨{ file := "index.spl" }, fun path => .error (.unavailable path)⟩

/-- A desk without components, and without a tool for scripts. -/
def bareDesk : Desk := { scripts := { load := fun _ => { result := .error .crashed } } }

/-- The names of the children of a page's elements, for the page that an outline gives. -/
def childNames (source : Text) : Option (List (List Text)) := do
  let elements ← (Outline.read source emptyStore.options).toOption
  let page ← (assemble emptyStore 9 none elements).run' bareDesk
  return page.elements.map (·.children.map (·.name))

private theorem exists_page {source : Text} {names : List (List Text)}
    (h : childNames source = some names) :
    ∃ elements page d', Outline.read source emptyStore.options = .ok elements ∧
      (assemble emptyStore 9 none elements).run bareDesk = .ok page d' ∧
      page.elements.map (·.children.map (·.name)) = names := by
  obtain ⟨elements, hread, h⟩ := Option.bind_eq_some_iff.mp h
  obtain ⟨page, hrun, hnames⟩ := Option.bind_eq_some_iff.mp h
  refine ⟨elements, page, ?_⟩
  cases hr : Outline.read source emptyStore.options with
  | error e =>
    rw [hr] at hread
    cases hread
  | ok found =>
    rw [hr] at hread
    cases hread
    delta EStateM.run' at hrun
    cases ha : (assemble emptyStore 9 none elements).run bareDesk with
    | error e d' =>
      rw [ha] at hrun
      cases hrun
    | ok made d' =>
      rw [ha] at hrun
      cases hrun
      exact ⟨d', rfl, rfl, Option.some.inj hnames⟩

/-- A component named `body` is used for the body, so the page is out of shape. -/
theorem page_shape_iff_at_component_body :
    AllDivs bareDesk.components ∧
      ∃ elements page d',
        Outline.read "head\n\tbody(@)\np hi\n" emptyStore.options = .ok elements ∧
        (assemble emptyStore 9 none elements).run bareDesk = .ok page d' ∧
        page.elements.map (·.children.map (·.name)) = [[], ["head".toList, "div".toList]] ∧
        ∃ inHead desk,
          (crawl emptyStore true 9 none (headChildren (frame "index.spl" elements).2 ++
            [viewport "index.spl"])).run bareDesk = .ok inHead desk ∧
          (InShape page.elements ↔ desk.components.contains "body" = false ∧
            isDefinition (firstTag "index.spl" "body" (frame "index.spl" elements).2) = false) := by
  have h : childNames "head\n\tbody(@)\np hi\n" =
      some [[], ["head".toList, "div".toList]] := by
    decide +kernel
  obtain ⟨elements, page, d', hread, hrun, hnames⟩ := exists_page h
  obtain ⟨inHead, desk, hhead, hshape, -⟩ := page_shape_iff allDivs_empty hrun
  exact ⟨allDivs_empty, elements, page, d', hread, hrun, hnames, inHead, desk, hhead, hshape⟩

/-- The body of this outline is marked as a definition, so its page has none. -/
theorem page_out_of_shape_at_marked_body :
    ∃ elements page d', Outline.read "body(@)\n\tp hi\n" emptyStore.options = .ok elements ∧
      (assemble emptyStore 9 none elements).run bareDesk = .ok page d' ∧
      ¬ InShape page.elements := by
  have h : childNames "body(@)\n\tp hi\n" = some [[], ["head".toList]] := by
    decide +kernel
  obtain ⟨elements, page, d', hread, hrun, hnames⟩ := exists_page h
  refine ⟨elements, page, d', hread, hrun, ?_⟩
  rintro ⟨doctype, html, head, body, helements, hchildren, -⟩
  rw [helements] at hnames
  simp [hchildren] at hnames

end OutlinePage.Page
