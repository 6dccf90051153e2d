import OutlinePage.Proofs.Hoisting
import OutlinePage.Proofs.PageShape
import OutlinePage.Proofs.Scopes

/-!
# What an assembled page holds

A document without imports and definitions keeps all its elements when it is brought into the shape
of a page. The first `html`, and the heads and bodies next to it and directly in it, are wrappers,
whose children are put together; everything else is on the page once, in the head or in the body.
-/

namespace OutlinePage.Page

/-- The `html` of a document and the elements that stand in it: what stands next to the first
written one moves inside, around its own children. -/
inductive Framed (file : Text) : List Element → Tag → List Element → Prop where
  | written {before after : List Element} {html : Element}
      (hbefore : ∀ e ∈ before, e.isNamed "html" = false) (hhtml : html.isNamed "html" = true) :
      Framed file (before ++ html :: after) html.tag (before ++ html.children ++ after)
  | missing {elements : List Element} (h : ∀ e ∈ elements, e.isNamed "html" = false) :
      Framed file elements { name := "html", file } elements

private theorem framed_frame (file : Text) (elements : List Element) :
    Framed file elements (frame file elements).1 (frame file elements).2 := by
  have hbefore : ∀ e ∈ elements.takeWhile (!·.isNamed "html"), e.isNamed "html" = false := by
    intro e he
    simpa using List.mem_takeWhile_imp he
  have hfirst := List.head?_dropWhile_not (fun e : Element => !e.isNamed "html") elements
  have hsplit : elements.takeWhile (!·.isNamed "html") ++ elements.dropWhile (!·.isNamed "html") =
      elements := List.takeWhile_append_dropWhile
  rw [frame]
  generalize elements.takeWhile (!·.isNamed "html") = before at hbefore hsplit ⊢
  cases hdrop : elements.dropWhile (!·.isNamed "html") with
  | nil =>
    rw [hdrop, List.append_nil] at hsplit
    exact .missing (hsplit ▸ hbefore)
  | cons html after =>
    rw [hdrop] at hsplit hfirst
    rw [← hsplit]
    exact .written hbefore (by simpa using hfirst)

/-- A head or a body. -/
def isWrapper (e : Element) : Bool := e.isNamed "head" || e.isNamed "body"

/-- The tags of a document that give up their children: the first `html`, and the heads and bodies
among the elements that stand in it. -/
def wrapperTags (elements children : List Element) : List Tag :=
  (elements.find? (·.isNamed "html")).toList.map (·.tag) ++ (children.filter isWrapper).map (·.tag)

private theorem headChildren_cons (e : Element) (es : List Element) :
    headChildren (e :: es) = (if e.isNamed "head" then e.children else []) ++ headChildren es := by
  rw [headChildren, List.filter_cons]
  split <;> rfl

private theorem bodyChildren_cons (e : Element) (es : List Element) :
    bodyChildren (e :: es) =
      (if e.isNamed "body" then e.children else if e.isNamed "head" then [] else [e]) ++
        bodyChildren es := rfl

/-- Whatever stands in the `html` is a head or a body, or goes into one of them. -/
theorem tags_children (children : List Element) :
    (tags children).Perm ((children.filter isWrapper).map (·.tag) ++
      (tags (headChildren children) ++ tags (bodyChildren children))) := by
  induction children with
  | nil => exact List.Perm.refl _
  | cons e es ih =>
    rw [List.perm_iff_count] at ih ⊢
    intro t
    have hes := ih t
    obtain ⟨tag, inside⟩ := e
    rw [headChildren_cons, bodyChildren_cons, tags_cons, List.filter_cons, isWrapper]
    cases hbody : Element.isNamed "body" ⟨tag, inside⟩ with
    | true =>
      have hhead : Element.isNamed "head" ⟨tag, inside⟩ = false := by
        rw [Element.isNamed, beq_iff_eq] at hbody
        rw [Element.isNamed, hbody]
        decide
      rw [hhead]
      simp [List.count_cons] at hes ⊢
      omega
    | false =>
      cases hhead : Element.isNamed "head" ⟨tag, inside⟩ with
      | true =>
        simp [List.count_cons] at hes ⊢
        omega
      | false =>
        simp [List.count_cons] at hes ⊢
        omega

section

variable {file : Text} {elements children : List Element} {html : Tag}

private theorem Framed.tags_perm (h : Framed file elements html children) :
    (tags elements).Perm
      ((elements.find? (·.isNamed "html")).toList.map (·.tag) ++ tags children) := by
  cases h with
  | @written before after html hbefore hhtml =>
    have hnone : before.find? (·.isNamed "html") = none :=
      List.find?_eq_none.mpr fun e he => Bool.eq_false_iff.mp (hbefore e he)
    obtain ⟨tag, inside⟩ := html
    rw [List.find?_append, hnone, List.find?_cons_of_pos hhtml, tags_append, tags_append, tags_cons,
      tags_append, List.append_assoc]
    exact List.perm_middle
  | missing h =>
    have hnone : elements.find? (·.isNamed "html") = none :=
      List.find?_eq_none.mpr fun e he => Bool.eq_false_iff.mp (h e he)
    rw [hnone]
    exact List.Perm.refl _

/-- A document consists of its wrappers and of what goes into the head and into the body. -/
theorem Framed.tags_wrapped (h : Framed file elements html children) :
    (tags elements).Perm (wrapperTags elements children ++
      (tags (headChildren children) ++ tags (bodyChildren children))) := by
  rw [wrapperTags, List.append_assoc]
  exact h.tags_perm.trans ((tags_children children).append_left _)

private theorem Framed.height_le (h : Framed file elements html children) :
    height children ≤ height elements := by
  cases h with
  | @written before after html hbefore hhtml =>
    obtain ⟨tag, inside⟩ := html
    simp only [height_append, height_cons]
    omega
  | missing h => exact Nat.le_refl _

end

private theorem height_headChildren_le (children : List Element) :
    height (headChildren children) ≤ height children := by
  rw [height_le_iff]
  intro e he
  obtain ⟨head, hhead, he⟩ := List.mem_flatMap.mp he
  have hinside := height_le_iff.mp (Nat.le_refl _) e he
  have houtside := height_le_iff.mp (Nat.le_refl _) head (List.mem_filter.mp hhead).1
  omega

private theorem height_bodyChildren_le (children : List Element) :
    height (bodyChildren children) ≤ height children := by
  rw [height_le_iff]
  intro e he
  obtain ⟨child, hchild, he⟩ := List.mem_flatMap.mp he
  have houtside := height_le_iff.mp (Nat.le_refl _) child hchild
  split at he
  · have hinside := height_le_iff.mp (Nat.le_refl _) e he
    omega
  · split at he
    · cases he
    · rw [List.mem_singleton.mp he]
      exact houtside

/-- A tag is as it was written, or new. -/
theorem firstTag_cases (file name : Text) (elements : List Element) :
    firstTag file name elements ∈ tags elements ∨ firstTag file name elements = { name, file } := by
  rw [firstTag]
  cases hfind : elements.find? (·.isNamed name) with
  | none => exact Or.inr rfl
  | some e => exact Or.inl (mem_tags_of_mem (List.mem_of_find?_eq_some hfind) (tag_mem_tags e))

/-- Working through the children of the heads and the viewport leaves all of them where they are. -/
theorem crawl_heads {s : Setting} {reach : Nat} {room : Room} {es : List Element} {d : Desk}
    (hplain : Plain es) (hcompile : ∀ t ∈ tags es, Compiles s.options d.scripts.answer t)
    (hreach : height es < reach) (hroom : room.Holds (height es + 1)) (hd : d.components = {}) :
    ∃ scripts d', (crawl s true reach room (es ++ [viewport s.options.file])).run d =
        .ok ⟨mapTags (rewritten s.options d.scripts.answer) es ++ [viewport s.options.file],
          scripts, []⟩ d' ∧
      d'.components = {} ∧ d'.scripts.answer = d.scripts.answer := by
  have hname : (viewport s.options.file).tag.name = "meta" := rfl
  have htags : tags (es ++ [viewport s.options.file]) =
      tags es ++ [(viewport s.options.file).tag] := tags_append es _
  have hplain' : Plain (es ++ [viewport s.options.file]) := by
    rw [Plain, htags, List.forall_mem_append, List.forall_mem_singleton]
    exact ⟨hplain, by rw [hname]; decide, rfl⟩
  have hcompile' : ∀ t ∈ tags (es ++ [viewport s.options.file]),
      Compiles s.options d.scripts.answer t := by
    rw [htags, List.forall_mem_append, List.forall_mem_singleton]
    exact ⟨hcompile, compiles_of_not_script _ _ (by rw [hname]; decide)⟩
  have hheight : height (es ++ [viewport s.options.file]) ≤ height es + 1 := by
    rw [height_append]
    exact Nat.max_le.mpr ⟨Nat.le_succ _, Nat.succ_le_succ (Nat.zero_le _)⟩
  have hviewport : rewritten s.options d.scripts.answer (viewport s.options.file).tag =
      (viewport s.options.file).tag :=
    (rewritten_of_plain s.options d.scripts.answer (by rw [hname]; decide)).1
  have hsame : mapTags (rewritten s.options d.scripts.answer) [viewport s.options.file] =
      [viewport s.options.file] := congrArg (fun tag => [(⟨tag, []⟩ : Element)]) hviewport
  obtain ⟨d', hrun, hrest⟩ := crawl_plain true hplain' hcompile'
    (Nat.le_trans hheight hreach) (hroom.mono hheight) hd
  rw [outcome, mapTags_append, hsame] at hrun
  exact ⟨_, d', hrun, hrest⟩

/-- Working through the body takes out what belongs in the head. -/
theorem crawl_bodies {s : Setting} {reach : Nat} {room : Room} {body : Tag} {es : List Element}
    {d : Desk} (hname : body.name = "body") (hbody : isDefinition body = false) (hplain : Plain es)
    (hcompile : ∀ t ∈ tags es, Compiles s.options d.scripts.answer t)
    (hreach : height es < reach) (hroom : room.Holds (height es + 1)) (hd : d.components = {}) :
    ∃ scripts d', (crawl s false reach room [⟨body, es⟩]).run d =
        .ok ⟨[⟨body, prune (mapTags (rewritten s.options d.scripts.answer) es)⟩], scripts,
          collect (mapTags (rewritten s.options d.scripts.answer) es)⟩ d' := by
  have htags : tags [⟨body, es⟩] = body :: tags es := by
    rw [tags_cons, tags_nil, List.append_nil]
  have hplain' : Plain [⟨body, es⟩] := by
    rw [Plain, htags, List.forall_mem_cons]
    exact ⟨⟨by rw [hname]; decide, hbody⟩, hplain⟩
  have hcompile' : ∀ t ∈ tags [⟨body, es⟩], Compiles s.options d.scripts.answer t := by
    rw [htags, List.forall_mem_cons]
    exact ⟨compiles_of_not_script _ _ (by rw [hname]; decide), hcompile⟩
  have hheight : height [⟨body, es⟩] = height es + 1 := by
    rw [height_cons, height_nil, Nat.max_zero]
  have hsame : rewritten s.options d.scripts.answer body = body :=
    (rewritten_of_plain s.options d.scripts.answer (by rw [hname]; decide)).1
  have hstays : isHeadTag body = false := by
    rw [isHeadTag, hname]
    decide
  obtain ⟨d', hrun, -⟩ := crawl_plain false hplain' hcompile'
    (hheight.trans_le hreach) (hroom.mono hheight.le) hd
  rw [outcome, mapTags_cons, hsame, mapTags_nil] at hrun
  simp only [arranged, Bool.false_eq_true, if_false, prune_cons, collect_cons, hstays, prune_nil,
    collect_nil, List.append_nil] at hrun
  exact ⟨_, d', hrun⟩

private theorem Framed.body_plain {file : Text} {elements children : List Element} {html : Tag}
    (h : Framed file elements html children) (hplain : Plain elements) :
    isDefinition (firstTag file "body" children) = false := by
  rcases firstTag_cases file "body" children with hmem | hnew
  · exact (hplain _ (h.tags_perm.mem_iff.mpr (List.mem_append_right _ hmem))).2
  · rw [hnew]
    rfl

/-- A page is put together from what the work on its head and on its body comes to. -/
theorem assemble_of_crawls {s : Setting} {reach : Nat} {room : Room}
    {elements children : List Element} {html : Tag} {d d₁ d₂ : Desk} {inHead inBody : Crawled}
    (hframe : frame s.options.file elements = (html, children))
    (hhead : (crawl s true reach room
      (headChildren children ++ [viewport s.options.file])).run d = .ok inHead d₁)
    (hbody : (crawl s false reach room
      [⟨firstTag s.options.file "body" children, bodyChildren children⟩]).run d₁ = .ok inBody d₂) :
    (assemble s reach room elements).run d = .ok
      { elements := [doctypeElement s.options.file, ⟨html,
          ⟨firstTag s.options.file "head" children,
            inHead.elements ++ inHead.head ++ inBody.head⟩ :: inBody.elements⟩]
        scripts := inHead.scripts ++ inBody.scripts } d₂ := by
  rw [assemble, hframe]
  exact run_bind_eq_ok.mpr ⟨inHead, d₁, hhead, run_bind_eq_ok.mpr ⟨inBody, d₂, hbody, rfl⟩⟩

/-- The viewport is the `meta` of that name, in whatever scope it is written. -/
theorem render_viewport (convert : Text → Text) (vars : Variables) (file : Text) :
    render convert vars [viewport file] =
      "<meta name=\"viewport\" content=\"width=device-width,initial-scale=1.0\">" := by
  have hname : vars.substitute "\"viewport\"" = "\"viewport\"" :=
    Variables.substitute_of_references (by decide +kernel) vars
  have hcontent : vars.substitute "\"width=device-width,initial-scale=1.0\"" =
      "\"width=device-width,initial-scale=1.0\"" :=
    Variables.substitute_of_references (by decide +kernel) vars
  simp only [render, renderEach, renderElement, viewport, openTag, List.flatMap_cons,
    renderAttribute, hname, hcontent]
  rfl

/-- The tags of a page are those of its shell and those of what it is made of. -/
theorem tags_page (doctype html head viewport body : Tag) (inHead inBody : List Element) :
    (tags [⟨doctype, []⟩, ⟨html, [⟨head, inHead ++ [⟨viewport, []⟩] ++ collect inBody⟩,
      ⟨body, prune inBody⟩]⟩]).Perm
        ([doctype, html, head, viewport, body] ++ (tags inHead ++ tags inBody)) := by
  have hbody := List.perm_iff_count.mp (tags_prune_collect inBody)
  rw [List.perm_iff_count]
  intro t
  have ht := hbody t
  simp only [tags_cons, tags_nil, tags_append, List.count_cons, List.count_append, List.count_nil,
    List.append_nil] at ht ⊢
  omega

/-- A document without imports and definitions, whose scripts compile, becomes a page that holds all
of it. The head has the children of all heads in order, the viewport, and what belongs in the head
of all the rest, each after what is below it; the body has the rest without that. The viewport is
the `meta` of that name, and it is written with its content. Every tag of the document that is no
wrapper is on the page once, rewritten, and apart from these there are only the doctype, the `html`,
its head and its body, and the viewport. -/
theorem assembly_keeps_content {s : Setting} {reach : Nat} {room : Room}
    {elements : List Element} {d : Desk} (hplain : Plain elements)
    (hcompile : ∀ t ∈ tags elements, Compiles s.options d.scripts.answer t)
    (hreach : height elements < reach) (hroom : room.Holds (height elements + 1))
    (hd : d.components = {}) :
    ∃ html children, Framed s.options.file elements html children ∧
      let file := s.options.file
      let head := firstTag file "head" children
      let body := firstTag file "body" children
      let rewrite := rewritten s.options d.scripts.answer
      let inBody := mapTags rewrite (bodyChildren children)
      ∃ page d', (assemble s reach room elements).run d = .ok page d' ∧
        page.elements = [doctypeElement file, ⟨html, [
          ⟨head, mapTags rewrite (headChildren children) ++ [viewport file] ++ collect inBody⟩,
          ⟨body, prune inBody⟩]⟩] ∧
        (∀ convert vars, render convert vars [viewport file] =
          "<meta name=\"viewport\" content=\"width=device-width,initial-scale=1.0\">") ∧
        (tags page.elements).Perm
          ([(doctypeElement file).tag, html, head, (viewport file).tag, body] ++
            (tags (headChildren children) ++ tags (bodyChildren children)).map rewrite) ∧
        (tags elements).Perm (wrapperTags elements children ++
          (tags (headChildren children) ++ tags (bodyChildren children))) := by
  obtain ⟨html, children, hframe⟩ : ∃ html children, frame s.options.file elements =
      (html, children) := ⟨_, _, rfl⟩
  have hframed : Framed s.options.file elements html children := by
    have h := framed_frame s.options.file elements
    rwa [hframe] at h
  refine ⟨html, children, hframed, ?_⟩
  intro file head body rewrite inBody
  have hwrapped := hframed.tags_wrapped
  have hheads : ∀ t ∈ tags (headChildren children), t ∈ tags elements := by
    intro t ht
    exact hwrapped.mem_iff.mpr (List.mem_append_right _ (List.mem_append_left _ ht))
  have hbodies : ∀ t ∈ tags (bodyChildren children), t ∈ tags elements := by
    intro t ht
    exact hwrapped.mem_iff.mpr (List.mem_append_right _ (List.mem_append_right _ ht))
  have hheight := hframed.height_le
  have hinHead := height_headChildren_le children
  have hinBody := height_bodyChildren_le children
  obtain ⟨headScripts, d₁, hheadRun, hd₁, hanswer⟩ := crawl_heads
    (fun t ht => hplain t (hheads t ht)) (fun t ht => hcompile t (hheads t ht))
    (by omega : height (headChildren children) < reach) (hroom.mono (by omega)) hd
  obtain ⟨bodyScripts, d₂, hbodyRun⟩ := crawl_bodies (s := s) (d := d₁)
    (firstTag_name file "body" children) (hframed.body_plain hplain)
    (fun t ht => hplain t (hbodies t ht)) (fun t ht => hanswer ▸ hcompile t (hbodies t ht))
    (by omega : height (bodyChildren children) < reach) (hroom.mono (by omega)) hd₁
  rw [hanswer] at hbodyRun
  have hrun := assemble_of_crawls hframe hheadRun hbodyRun
  rw [List.append_nil] at hrun
  refine ⟨_, d₂, hrun, rfl, fun _ _ => render_viewport .., ?_, hwrapped⟩
  rw [List.map_append, ← tags_mapTags, ← tags_mapTags]
  exact tags_page (doctypeElement file).tag html head (viewport file).tag body _ inBody

/-- A document with two heads and two bodies, next to an `html` and in it. -/
def mergedDocument : List Element :=
  [⟨{ name := "head", file := "index.spl" },
      [⟨{ name := "title", file := "index.spl", text := some "T".toList }, []⟩]⟩,
    ⟨{ name := "html", file := "index.spl" },
      [⟨{ name := "head", file := "index.spl" }, [⟨{ name := "base", file := "index.spl" }, []⟩]⟩,
        ⟨{ name := "body", file := "index.spl" },
          [⟨{ name := "div", file := "index.spl" },
            [⟨{ name := "css", file := "index.spl", text := some "p".toList }, []⟩,
              ⟨{ name := "p", file := "index.spl" }, []⟩]⟩]⟩]⟩,
    ⟨{ name := "body", file := "index.spl" },
      [⟨{ name := "script", file := "index.spl", text := some "f()".toList }, []⟩]⟩]

/-- The two heads and the two bodies of this document become one each, and nothing is lost. -/
theorem assembly_keeps_content_at_merged :
    Plain mergedDocument ∧ height mergedDocument < 5 ∧
      Room.Holds (some 5) (height mergedDocument + 1) ∧ plainDesk.components = {} ∧
      (∀ t ∈ tags mergedDocument, Compiles emptyStore.options plainDesk.scripts.answer t) ∧
      ∃ page d', (assemble emptyStore 5 (some 5) mergedDocument).run plainDesk = .ok page d' ∧
        (tags page.elements).map (·.name) = ["!DOCTYPE html".toList, "html".toList, "head".toList,
          "title".toList, "base".toList, "meta".toList, "style".toList, "body".toList,
          "div".toList, "p".toList, "script".toList] ∧
        ∃ html children, Framed "index.spl" mergedDocument html children ∧
          (tags page.elements).Perm ([(doctypeElement "index.spl").tag, html,
              firstTag "index.spl" "head" children, (viewport "index.spl").tag,
              firstTag "index.spl" "body" children] ++
            (tags (headChildren children) ++ tags (bodyChildren children)).map
              (rewritten emptyStore.options plainDesk.scripts.answer)) ∧
          (tags mergedDocument).Perm (wrapperTags mergedDocument children ++
            (tags (headChildren children) ++ tags (bodyChildren children))) := by
  have hplain : Plain mergedDocument := by decide
  have hheight : height mergedDocument < 5 := by decide
  have hroom : Room.Holds (some 5) (height mergedDocument + 1) := by decide
  have hcompile : ∀ t ∈ tags mergedDocument,
      Compiles emptyStore.options plainDesk.scripts.answer t := fun _ _ source _ => ⟨_, rfl⟩
  have hnames : ((assemble emptyStore 5 (some 5) mergedDocument).run' plainDesk).map
      (fun page => (tags page.elements).map (·.name)) =
      some ["!DOCTYPE html".toList, "html".toList, "head".toList, "title".toList, "base".toList,
        "meta".toList, "style".toList, "body".toList, "div".toList, "p".toList,
        "script".toList] := by
    decide +kernel
  obtain ⟨page, d', hrun, hpage⟩ := exists_run_of_map hnames
  obtain ⟨html, children, hframed, page', d'', hrun', -, -, hperm, hwrapped⟩ :=
    assembly_keeps_content hplain hcompile hheight hroom rfl
  cases hrun.symm.trans hrun'
  exact ⟨hplain, hheight, hroom, rfl, hcompile, page, d', hrun, hpage, html, children, hframed,
    hperm, hwrapped⟩

end OutlinePage.Page
