import OutlinePage.Proofs.Expansion
import OutlinePage.Proofs.Forest

/-!
# Nothing is left undone

Whether an element comes from the document, from a file, from a template or from the use of a
component, nothing is left to be done about it once it was worked through: there are no more
imports, definitions and shorthands at any depth, and what belongs in the head was set apart. The
templates that are registered meanwhile keep the form that this rests on.
-/

namespace OutlinePage.Page

/-- Nothing is left to be done about a tag: it is no import and no definition, and neither a `css`
nor a `style` with a source. -/
structure Settled (t : Tag) : Prop where
  not_import : Vocabulary.importTags.contains t.name = false
  not_css : t.name ≠ "css"
  not_definition : isDefinition t = false
  not_source : t.name = "style" → t.attributes.contains "src" = false

/-- All that was found is settled. Outside the head, elements that belong there are set apart, and
nothing else is; inside, nothing is set apart. -/
structure Complete (inHead : Bool) (r : Crawled) : Prop where
  settled : ∀ t ∈ tags (r.elements ++ r.head), Settled t
  stays : inHead = false → ∀ t ∈ tags r.elements, isHeadTag t = false
  moves : inHead = false →
    ∀ e ∈ r.head, isHeadTag e.tag = true ∧ ∀ t ∈ tags e.children, isHeadTag t = false
  inside : inHead = true → r.head = []

/-- All templates of the table are `div`s without a marker. -/
def PlainTemplates (components : Table Text Element) : Prop :=
  ∀ entry ∈ components.entries, entry.2.name = "div" ∧ isDefinition entry.2.tag = false

/-! ### Tags -/

private theorem settled_linkStyle {t : Tag} (hstyle : t.name = "style")
    (hdefinition : isDefinition t = false) : Settled (linkStyle t) := by
  rw [linkStyle]
  split
  · next hsrc =>
    constructor
    · rw [hstyle]
      decide
    · rw [hstyle]
      decide
    · exact hdefinition
    · intro _
      rw [Table.contains, hsrc]
      rfl
  · constructor
    · exact (show Vocabulary.importTags.contains "link".toList = false by decide)
    · exact (show "link".toList ≠ "css".toList by decide)
    · rfl
    · intro h
      cases h

/-- A tag other than a style keeps its name, and its attributes but for the source. -/
theorem expandTag_keeps {s : Setting} {t tag : Tag} {scripts : List Text} {d d' : Desk}
    (hstyle : t.name ≠ "style") (h : (expandTag s t).run d = .ok (tag, scripts) d') :
    tag.name = t.name ∧ isDefinition tag = isDefinition t := by
  rw [expandTag_eq] at h
  split at h
  · rw [shorthand, if_neg hstyle] at h
    obtain ⟨htag, -⟩ := run_pure_eq_ok.mp h
    obtain rfl : tag = _ := congrArg Prod.fst htag
    split
    · split
      · split
        · refine ⟨rfl, ?_⟩
          rw [isDefinition, isDefinition, Table.contains, Table.contains]
          exact congrArg _ (Table.get?_insert_of_ne (by decide) t.attributes _)
        · exact ⟨rfl, rfl⟩
      · exact ⟨rfl, rfl⟩
    · exact ⟨rfl, rfl⟩
  · obtain ⟨code, d₁, -, hret⟩ := run_bind_eq_ok.mp h
    obtain ⟨htag, -⟩ := run_pure_eq_ok.mp hret
    cases htag
    exact ⟨rfl, rfl⟩

/-- Writing out its shorthands settles a tag that is neither an import nor a definition. -/
theorem settled_of_expandTag {s : Setting} {t tag : Tag} {scripts : List Text} {d d' : Desk}
    (himport : Vocabulary.importTags.contains t.name = false) (hcss : t.name ≠ "css")
    (hdefinition : isDefinition t = false)
    (h : (expandTag s t).run d = .ok (tag, scripts) d') : Settled tag := by
  by_cases hstyle : t.name = "style"
  · rw [expandTag, if_pos hstyle] at h
    obtain ⟨htag, -⟩ := run_pure_eq_ok.mp h
    cases htag
    exact settled_linkStyle hstyle hdefinition
  · obtain ⟨hname, hmarker⟩ := expandTag_keeps hstyle h
    constructor
    · rw [hname]
      exact himport
    · rw [hname]
      exact hcss
    · rw [hmarker]
      exact hdefinition
    · intro htag
      exact absurd (hname.symm.trans htag) hstyle

/-! ### Templates -/

private theorem plainTemplates_empty : PlainTemplates {} := fun _ h => by cases h

private theorem PlainTemplates.name_eq {components : Table Text Element}
    (h : PlainTemplates components) {k : Text} {template : Element}
    (hget : components.get? k = some template) :
    template.name = "div" :=
  (h _ (Table.mem_of_find? hget)).1

private theorem PlainTemplates.registered {d : Desk} (h : PlainTemplates d.components)
    (definition : Element) : PlainTemplates (registered definition d).components := by
  intro entry he
  rcases Table.mem_put he with he | rfl
  · exact h entry he
  · exact ⟨rfl, isDefinition_template definition⟩

/-! ### Elements -/

private theorem complete_empty (inHead : Bool) : Complete inHead {} where
  settled := fun _ h => by cases h
  stays := fun _ _ h => by cases h
  moves := fun _ _ h => by cases h
  inside := fun _ => rfl

private theorem Complete.append {inHead : Bool} {a b : Crawled} (ha : Complete inHead a)
    (hb : Complete inHead b) : Complete inHead (a.append b) where
  settled t ht := by
    have hmem : t ∈ tags (a.elements ++ a.head) ∨ t ∈ tags (b.elements ++ b.head) := by
      simp only [Crawled.append, tags_append, List.mem_append] at ht ⊢
      exact or_or_or_comm.mp ht
    exact hmem.elim (ha.settled t) (hb.settled t)
  stays hin t ht := by
    rw [Crawled.append, tags_append, List.mem_append] at ht
    exact ht.elim (ha.stays hin t) (hb.stays hin t)
  moves hin e he := (List.mem_append.mp he).elim (ha.moves hin e) (hb.moves hin e)
  inside hin := by
    rw [Crawled.append, ha.inside hin, hb.inside hin]
    rfl

private theorem Complete.placed {inHead : Bool} {tag : Tag} {inner : Crawled} (htag : Settled tag)
    (hinner : Complete inHead inner) (scripts : List Text) :
    Complete inHead (placed inHead tag scripts inner) := by
  have hsettled {t : Tag} (ht : t = tag ∨ t ∈ tags (inner.elements ++ inner.head)) : Settled t :=
    ht.elim (fun h => h ▸ htag) (hinner.settled t)
  by_cases hmove : inHead = false ∧ isHeadTag tag = true
  · obtain ⟨rfl, hhead⟩ := hmove
    rw [placed_head hhead]
    refine ⟨?_, ?_, ?_, Bool.noConfusion⟩
    · intro t ht
      refine hsettled ?_
      simp only [List.nil_append, tags_append, tags_cons, tags_nil, List.append_nil,
        List.mem_append, List.mem_cons] at ht ⊢
      exact ht.elim (fun h => Or.inr (Or.inr h)) (Or.imp_right Or.inl)
    · intro _ t ht
      cases ht
    · intro hin e he
      rcases List.mem_append.mp he with he | he
      · exact hinner.moves hin e he
      · rw [List.mem_singleton.mp he]
        exact ⟨hhead, hinner.stays hin⟩
  · have hstay : inHead = true ∨ isHeadTag tag = false := by
      cases inHead <;> simp_all
    rw [placed_other hstay]
    refine ⟨?_, ?_, hinner.moves, hinner.inside⟩
    · intro t ht
      refine hsettled ?_
      simpa using ht
    · intro hin t ht
      rw [tags_cons, tags_nil, List.append_nil] at ht
      rcases List.mem_cons.mp ht with rfl | ht
      · exact hstay.resolve_left (by rw [hin]; exact Bool.false_ne_true)
      · exact hinner.stays hin t ht

private theorem settled_instantiate {template : Element} (hname : template.name = "div")
    (use : Element) :
    Settled (instantiate template use).tag := by
  have hdiv : (instantiate template use).tag.name = "div" := hname
  constructor
  · rw [hdiv]
    decide
  · rw [hdiv]
    decide
  · exact isDefinition_instantiate template use
  · intro hstyle
    rw [hdiv] at hstyle
    cases hstyle

/-- One element is settled with everything that it leads to. -/
theorem CrawlsElement.complete {s : Setting} {inHead : Bool}
    {below : Room → List Element → Work Crawled} {room : Room} {e : Element} {d d' : Desk}
    {r : Crawled} (h : CrawlsElement s inHead below room e d r d')
    (hbelow : ∀ {room es d r d'}, (below room es).run d = .ok r d' →
      PlainTemplates d.components → Complete inHead r ∧ PlainTemplates d'.components)
    (hd : PlainTemplates d.components) : Complete inHead r ∧ PlainTemplates d'.components := by
  cases h with
  | imported himport hread hrest =>
    apply hbelow hrest
    rw [(importElements_eq_ok hread).2.1]
    exact hd
  | used himport hget hrest =>
    obtain ⟨hinner, hd'⟩ := hbelow hrest hd
    have hdiv := hd.name_eq hget
    have hplaced := hinner.placed (settled_instantiate hdiv (known e)) []
    rw [placed_other (Or.inr (isHeadTag_instantiate hdiv (known e)))] at hplaced
    exact ⟨hplaced, hd'⟩
  | defined himport hget hdefinition =>
    exact ⟨complete_empty inHead, hd.registered (known e)⟩
  | kept himport hget hdefinition hexpand hrest =>
    have hd₁ := (expandTag_steady hexpand).1
    obtain ⟨hinner, hd'⟩ := hbelow hrest (hd₁ ▸ hd)
    refine ⟨hinner.placed ?_ _, hd'⟩
    exact settled_of_expandTag (importTags_known himport) (canonical_ne_css e.tag) hdefinition
      hexpand

/-- With templates of the right form, whatever was worked through leaves nothing to be done, and the
templates that are registered then have that form as well. -/
theorem crawl_leaves_nothing {s : Setting} {inHead : Bool} {reach : Nat} {room : Room}
    {es : List Element} {d d' : Desk} {r : Crawled} (hd : PlainTemplates d.components)
    (h : (crawl s inHead reach room es).run d = .ok r d') :
    Complete inHead r ∧ PlainTemplates d'.components := by
  refine crawl_induction (P := fun _ _ _ d r d' => PlainTemplates d.components →
    Complete inHead r ∧ PlainTemplates d'.components) ?_ ?_ h hd
  · intro reach room d hd
    exact ⟨complete_empty inHead, hd⟩
  · intro reach room e es d r₁ d₁ r₂ d' _ hone ih hothers hd
    obtain ⟨hfirst, hd₁⟩ := hone.complete ih hd
    obtain ⟨hrest, hd'⟩ := hothers hd₁
    exact ⟨hfirst.append hrest, hd'⟩

/-- An import, two components and a sheet: nothing is left of them to be done. -/
theorem crawl_leaves_nothing_at_cards :
    PlainTemplates plainDesk.components ∧
      ∃ r d', (crawl cardsSetting false 4 (some 3) cardsPage).run plainDesk = .ok r d' ∧
        ((tags r.elements).map (·.name), r.head.map (·.name)) =
          (["div".toList, "div".toList, "script".toList], ["style".toList]) ∧
        Complete false r ∧ PlainTemplates d'.components := by
  have h : ((crawl cardsSetting false 4 (some 3) cardsPage).run' plainDesk).map
      (fun r => ((tags r.elements).map (·.name), r.head.map (·.name))) =
      some (["div".toList, "div".toList, "script".toList], ["style".toList]) := by
    decide +kernel
  obtain ⟨r, d', hrun, hnames⟩ := exists_run_of_map h
  exact ⟨plainTemplates_empty, r, d', hrun, hnames,
    crawl_leaves_nothing plainTemplates_empty hrun⟩

end OutlinePage.Page
