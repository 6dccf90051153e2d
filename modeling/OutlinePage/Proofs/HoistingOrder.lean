import OutlinePage.Proofs.Hoisting

/-!
# The order of what moves to the head

In a document without imports and components, what moves to the head is decided by the rewritten
tags alone: such an element is taken out with everything below it, apart from what moves to the head
on its own account. No element is lost or doubled on the way, and those in the head stand in the
order in which they ended in the document. So style sheets come in the order in which they were
written, and only one that is written inside of another comes before it.
-/

namespace OutlinePage.Page

/-- The tag with its shorthands written out where it stands: `css` is short for `style`, a style
with a source becomes a link to it and nothing else, a script refers to its compiled file if that is
asked for, and a script in the document is compiled. -/
def inPlace (o : Options) (compiled : Script.Job → Text) (t : Tag) : Tag :=
  if t.name = "css" ∨ t.name = "style" then
    match t.attributes.get? "src" with
    | none => { t with name := "style" }
    | some src =>
      { t with name := "link", attributes := ⟨[("rel", "\"stylesheet\""), ("href", src)]⟩ }
  else if t.name = "script" then
    match t.attributes.get? "src" with
    | some src =>
      if o.convertScripts then
        { t with attributes := t.attributes.insert "src" (compiledName src) }
      else t
    | none =>
      match t.text? with
      | none => t
      | some source => { t with text := some (compiled (jobOf o t source)) }
  else t

/-- Every script in the elements compiles, and to the given code. -/
def CompilesTo (o : Options) (answer : Script.Job → Except Script.Fault Text)
    (compiled : Script.Job → Text) (es : List Element) : Prop :=
  ∀ t ∈ tags es, ∀ source, inlineScript t = some source →
    answer (jobOf o t source) = .ok (compiled (jobOf o t source))

mutual

/-- The tags of an element and of those below it, in the order in which they end. -/
def tagsByEndElement : Element → List Tag
  | ⟨tag, children⟩ => tagsByEnd children ++ [tag]

/-- The tags of all elements at any depth, each after those below it. -/
def tagsByEnd : List Element → List Tag
  | [] => []
  | e :: es => tagsByEndElement e ++ tagsByEnd es

end

mutual

/-- In the element no tag of the kind lies below another one. -/
def ApartElement (p : Tag → Bool) : Element → Prop
  | ⟨tag, children⟩ => (p tag = true → ∀ t ∈ tags children, p t = false) ∧ Apart p children

/-- No tag of the kind lies below another one. -/
def Apart (p : Tag → Bool) : List Element → Prop
  | [] => True
  | e :: es => ApartElement p e ∧ Apart p es

end

mutual

instance decidableApartElement (p : Tag → Bool) : (e : Element) → Decidable (ApartElement p e)
  | ⟨tag, children⟩ =>
    have := decidableApart p children
    inferInstanceAs (Decidable ((p tag = true → ∀ t ∈ tags children, p t = false) ∧
      Apart p children))

instance decidableApart (p : Tag → Bool) : (es : List Element) → Decidable (Apart p es)
  | [] => isTrue trivial
  | e :: es =>
    have := decidableApartElement p e
    have := decidableApart p es
    inferInstanceAs (Decidable (ApartElement p e ∧ Apart p es))

end

/-- A tag ends after its children, and before the elements after it. -/
@[simp] theorem tagsByEnd_cons (tag : Tag) (children rest : List Element) :
    tagsByEnd (⟨tag, children⟩ :: rest) = tagsByEnd children ++ [tag] ++ tagsByEnd rest := rfl

private theorem apart_cons {p : Tag → Bool} {tag : Tag} {children rest : List Element} :
    Apart p (⟨tag, children⟩ :: rest) ↔
      ((p tag = true → ∀ t ∈ tags children, p t = false) ∧ Apart p children) ∧ Apart p rest :=
  Iff.rfl

/-! ### Rewriting where a tag stands -/

private theorem inlineScript_of_ne {t : Tag} (h : t.name ≠ "script") : inlineScript t = none :=
  if_neg fun hscript => h hscript.1

private theorem inlineScript_canonical (t : Tag) : inlineScript (canonical t) = inlineScript t := by
  by_cases hcss : t.name = "css"
  · have hstyle : (canonical t).name = "style" := by rw [canonical, if_pos hcss]
    rw [inlineScript_of_ne (by rw [hstyle]; decide), inlineScript_of_ne (by rw [hcss]; decide)]
  · rw [canonical, if_neg hcss]

/-- A tag is rewritten by what its name is, as long as the script in it compiles. -/
theorem rewritten_eq_inPlace {o : Options} {answer : Script.Job → Except Script.Fault Text}
    {compiled : Script.Job → Text} {t : Tag}
    (h : ∀ source, inlineScript t = some source →
      answer (jobOf o t source) = .ok (compiled (jobOf o t source))) :
    rewritten o answer t = inPlace o compiled t := by
  by_cases hstyle : t.name = "css" ∨ t.name = "style"
  · have hcanonical : canonical t = { t with name := "style" } := by
      rcases hstyle with hcss | hname
      · exact if_pos hcss
      · rw [canonical, if_neg (by rw [hname]; decide), ← hname]
    have hname : (canonical t).name = "style" := by rw [hcanonical]
    have hinline : inlineScript (canonical t) = none :=
      inlineScript_of_ne (by rw [hname]; decide)
    simp only [rewritten, hinline, inPlace, if_pos hstyle, shorthand, if_pos hname]
    rw [hcanonical]
    unfold linkStyle
    cases t.attributes.get? "src" <;> rfl
  · rw [not_or] at hstyle
    have hcanonical : canonical t = t := if_neg hstyle.1
    simp only [rewritten, hcanonical, inPlace, if_neg (not_or.mpr hstyle)]
    by_cases hscript : t.name = "script"
    · cases hsrc : t.attributes.get? "src" with
      | some src =>
        have hinline : inlineScript t = none := by
          rw [inlineScript, hsrc]
          exact if_neg fun hnone => by cases hnone.2
        simp only [hinline, shorthand, if_neg hstyle.2, if_pos hscript, hsrc]
      | none =>
        have hinline : inlineScript t = t.text? := if_pos ⟨hscript, hsrc⟩
        rw [hinline] at h ⊢
        cases htext : t.text? with
        | none => simp only [shorthand, if_neg hstyle.2, if_pos hscript, hsrc]
        | some source =>
          rw [if_pos hscript]
          simp only [h source htext]
          rfl
    · simp only [inlineScript_of_ne hscript, shorthand, if_neg hstyle.2, if_neg hscript]

private theorem mapTags_congr {f g : Tag → Tag} {es : List Element} (h : ∀ t ∈ tags es, f t = g t) :
    mapTags f es = mapTags g es := by
  induction es using Outline.forest_induction with
  | nil => rfl
  | cons tag children rest ihc ihr =>
    rw [tags_cons, List.forall_mem_cons, List.forall_mem_append] at h
    rw [mapTags_cons, mapTags_cons, h.1, ihc h.2.1, ihr h.2.2]

private theorem CompilesTo.compiles {o : Options} {answer : Script.Job → Except Script.Fault Text}
    {compiled : Script.Job → Text} {es : List Element} (h : CompilesTo o answer compiled es) :
    ∀ t ∈ tags es, Compiles o answer t := by
  intro t ht source hinline
  rw [inlineScript_canonical] at hinline
  have hjob : jobOf o (canonical t) source = jobOf o t source := by
    rw [canonical]
    split <;> rfl
  exact ⟨_, by rw [hjob, h t ht source hinline]⟩

private theorem CompilesTo.mapTags_eq {o : Options} {answer : Script.Job → Except Script.Fault Text}
    {compiled : Script.Job → Text} {es : List Element} (h : CompilesTo o answer compiled es) :
    mapTags (rewritten o answer) es = mapTags (inPlace o compiled) es :=
  mapTags_congr fun t ht => rewritten_eq_inPlace (h t ht)

/-! ### The order in the head -/

/-- What is taken out of a tree stands in the order in which it ended. -/
theorem collect_tags (es : List Element) :
    (collect es).map (·.tag) = (tagsByEnd es).filter isHeadTag := by
  induction es using Outline.forest_induction with
  | nil => rfl
  | cons tag children rest ihc ihr =>
    rw [collect_cons, tagsByEnd_cons, List.map_append, List.map_append, List.filter_append,
      List.filter_append, ihc, ihr]
    cases hhead : isHeadTag tag <;> simp [hhead]

/-- Tags of which none lies below another end in the order in which they begin. -/
theorem Apart.filter_tagsByEnd {p : Tag → Bool} {es : List Element} (h : Apart p es) :
    (tagsByEnd es).filter p = (tags es).filter p := by
  induction es using Outline.forest_induction with
  | nil => rfl
  | cons tag children rest ihc ihr =>
    obtain ⟨⟨hbelow, hchildren⟩, hrest⟩ := apart_cons.mp h
    rw [tagsByEnd_cons, tags_cons, List.filter_append, List.filter_append, ihc hchildren,
      ihr hrest]
    cases htag : p tag with
    | false => simp [htag]
    | true =>
      have hnone : (tags children).filter p = [] := by
        rw [List.filter_eq_nil_iff]
        intro t ht
        rw [hbelow htag t ht]
        exact Bool.false_ne_true
      simp [htag, hnone]

/-- Elements without imports and definitions, worked through outside of the head with no components
at hand, are pruned and collected: once every tag is rewritten where it stands, the elements that
stay are those without what belongs in the head, and the elements for the head are those that do,
each after those below it and without them. Every tag is in one of the two results, and only once.
The elements for the head stand in the order in which they end in the document; so those of any
kind, such as style sheets, stand in the order in which they are written if none of them lies in
another. -/
theorem crawl_prunes_and_collects {s : Setting} {reach : Nat} {room : Room} {es : List Element}
    {d : Desk} {compiled : Script.Job → Text} (hplain : Plain es)
    (hcompile : CompilesTo s.options d.scripts.answer compiled es) (hreach : height es ≤ reach)
    (hroom : room.Holds (height es)) (hd : d.components = {}) :
    let document := mapTags (inPlace s.options compiled) es
    ∃ r d', (crawl s false reach room es).run d = .ok r d' ∧
      r.elements = prune document ∧ r.head = collect document ∧
      (tags r.elements ++ tags r.head).Perm ((tags es).map (inPlace s.options compiled)) ∧
      r.head.map (·.tag) = (tagsByEnd document).filter isHeadTag ∧
      ∀ kind : Tag → Bool, (∀ t, kind t = true → isHeadTag t = true) → Apart kind document →
        (r.head.map (·.tag)).filter kind =
          ((tags es).map (inPlace s.options compiled)).filter kind := by
  intro document
  obtain ⟨d', hrun, -, -⟩ := crawl_plain false hplain hcompile.compiles hreach hroom hd
  rw [outcome, hcompile.mapTags_eq] at hrun
  refine ⟨_, d', hrun, rfl, rfl, ?_, collect_tags document, ?_⟩
  · rw [← tags_mapTags]
    exact tags_prune_collect document
  · intro kind hkind hapart
    have hhead : ((tagsByEnd document).filter isHeadTag).filter kind =
        (tagsByEnd document).filter kind := by
      rw [List.filter_filter]
      refine List.filter_congr fun t _ => ?_
      cases hk : kind t with
      | false => exact Bool.false_and _
      | true => rw [hkind t hk, Bool.true_and]
    calc ((collect document).map (·.tag)).filter kind
        = ((tagsByEnd document).filter isHeadTag).filter kind := by rw [collect_tags]
      _ = (tagsByEnd document).filter kind := hhead
      _ = (tags document).filter kind := hapart.filter_tagsByEnd
      _ = ((tags es).map (inPlace s.options compiled)).filter kind := by rw [tags_mapTags]

/-- A document with a sheet and a title in a `div`, where the title holds another sheet. -/
def scatteredSheets : List Element :=
  [{ tag := { name := "div", file := "index.spl" }
     children := [
      { tag := { name := "css", file := "index.spl", attributes := ⟨[("src", "a.css")]⟩ } },
      { tag := { name := "title", file := "index.spl" }
        children := [{ tag := { name := "b", file := "index.spl" } },
          { tag := { name := "style", file := "index.spl", text := some "p".toList } }] }] },
    { tag := { name := "script", file := "index.spl", text := some "f()".toList } },
    { tag := { name := "css", file := "index.spl", text := some "q".toList } }]

/-- Is the tag a style sheet? -/
def isSheet (t : Tag) : Bool := t.name == "style" || t.name == "link"

/-- Sheets at several depths, none of them inside of another one, keep their order. -/
theorem crawl_prunes_and_collects_at_sheets :
    let o := cardsSetting.options
    let document := mapTags (inPlace o (·.source)) scatteredSheets
    Plain scatteredSheets ∧ CompilesTo o plainDesk.scripts.answer (·.source) scatteredSheets ∧
      height scatteredSheets ≤ 3 ∧ Room.Holds (some 3) (height scatteredSheets) ∧
      plainDesk.components = {} ∧ Apart isSheet document ∧
      ∃ r d', (crawl cardsSetting false 3 (some 3) scatteredSheets).run plainDesk = .ok r d' ∧
        (Outline.flatten 0 r.elements).map (fun e => (e.1, e.2.name)) =
          [(0, "div".toList), (0, "script".toList)] ∧
        (Outline.flatten 0 r.head).map (fun e => (e.1, e.2.name)) =
          [(0, "link".toList), (0, "style".toList), (0, "title".toList), (1, "b".toList),
            (0, "style".toList)] ∧
        (r.head.map (·.tag)).filter isSheet =
          ((tags scatteredSheets).map (inPlace o (·.source))).filter isSheet := by
  intro o document
  have hplain : Plain scatteredSheets := by decide
  have hcompile : CompilesTo o plainDesk.scripts.answer (·.source) scatteredSheets :=
    fun _ _ _ _ => rfl
  have hheight : height scatteredSheets ≤ 3 := by decide
  have hroom : Room.Holds (some 3) (height scatteredSheets) := by decide
  have hkind : ∀ t, isSheet t = true → isHeadTag t = true := by
    intro t ht
    rw [isSheet, Bool.or_eq_true, beq_iff_eq, beq_iff_eq] at ht
    rw [isHeadTag]
    rcases ht with ht | ht
    · rw [ht]
      decide
    · rw [ht]
      decide
  have hapart : Apart isSheet document := by decide
  obtain ⟨r, d', hrun, helements, hhead, -, -, horder⟩ :=
    crawl_prunes_and_collects hplain hcompile hheight hroom rfl
  refine ⟨hplain, hcompile, hheight, hroom, rfl, hapart, r, d', hrun, ?_, ?_,
    horder isSheet hkind hapart⟩
  · rw [helements]
    decide
  · rw [hhead]
    decide

/-- A sheet that is written inside of another one. -/
def nestedSheets : List Element :=
  let sheet (text : Text) : Tag := { name := "style", file := "index.spl", text := some text }
  [⟨sheet "outer", [⟨sheet "inner", []⟩]⟩]

/-- Of two sheets, one inside of the other, the inner one ends first and comes first in the head, so
they do not keep the order in which they are written. -/
theorem order_lost_at_nested_sheets :
    Plain nestedSheets ∧
      CompilesTo cardsSetting.options plainDesk.scripts.answer (·.source) nestedSheets ∧
      ∃ r d', (crawl cardsSetting false 2 none nestedSheets).run plainDesk = .ok r d' ∧
        ((r.head.map (·.tag)).filter isSheet).map (·.text) =
          [some "inner".toList, some "outer".toList] ∧
        (((tags nestedSheets).map (inPlace cardsSetting.options (·.source))).filter isSheet).map
          (·.text) = [some "outer".toList, some "inner".toList] := by
  have h : ((crawl cardsSetting false 2 none nestedSheets).run' plainDesk).map
      (fun r => ((r.head.map (·.tag)).filter isSheet).map (·.text)) =
      some [some "inner".toList, some "outer".toList] := by
    decide +kernel
  obtain ⟨r, d', hrun, horder⟩ := exists_run_of_map h
  exact ⟨by decide, fun _ _ _ _ => rfl, r, d', hrun, horder, by decide⟩

end OutlinePage.Page
