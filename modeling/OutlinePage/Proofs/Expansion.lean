import OutlinePage.Proofs.Crawling
import OutlinePage.Proofs.FlatReading

/-!
# Expansion up front

Imports and components can be dealt with before everything else. A first pass only expands them,
with the components registered so far in hand. What it leaves holds neither imports nor components,
so that a second pass needs no table and reads no file; it gives what a single pass gives.
-/

namespace OutlinePage.Page

/-- Expands one element with the components registered so far. `below` expands the elements that it
leads to. -/
def expandElement (s : Setting)
    (below : Table Text Element → List Element → Except Fault (List Element × Table Text Element))
    (components : Table Text Element) (e : Element) :
    Except Fault (List Element × Table Text Element) :=
  if Vocabulary.importTags.contains e.name then do
    below components (← imported s e.tag)
  else
    match components.get? (known e).name with
    | some template => do
      let made := instantiate template (known e)
      let (children, components) ← below components made.children
      return ([{ made with children }], components)
    | none =>
      if isDefinition (known e).tag then
        return ([], components.insert (known e).name (template (known e)))
      else do
        let (children, components) ← below components e.children
        return ([{ known e with children }], components)

/-- Expands elements one after the other. -/
def expandEach
    (one : Table Text Element → Element → Except Fault (List Element × Table Text Element))
    (components : Table Text Element) :
    List Element → Except Fault (List Element × Table Text Element)
  | [] => return ([], components)
  | e :: es => do
    let (first, components) ← one components e
    let (others, components) ← expandEach one components es
    return (first ++ others, components)

/-- Expands elements with the components registered so far, following them `reach` steps at most.
Returns what they expand to and the components registered then. -/
def expand (s : Setting) : (reach : Nat) → Table Text Element → List Element →
    Except Fault (List Element × Table Text Element)
  | _, components, [] => return ([], components)
  | 0, _, _ :: _ => throw .unfinished
  | reach + 1, components, es => expandEach (expandElement s (expand s reach)) components es

/-- No elements expand to none. -/
theorem expand_nil (s : Setting) (reach : Nat) (components : Table Text Element) :
    expand s reach components [] = .ok ([], components) := by
  cases reach <;> rfl

/-- Elements expand one after the other, with the components that the first one has left. -/
theorem expand_cons {s : Setting} {reach : Nat} {components components₁ components₂ :
    Table Text Element} {e : Element} {es first others : List Element}
    (hone : expandElement s (expand s reach) components e = .ok (first, components₁))
    (hothers : expand s (reach + 1) components₁ es = .ok (others, components₂)) :
    expand s (reach + 1) components (e :: es) = .ok (first ++ others, components₂) := by
  have hes (components : Table Text Element) (es : List Element) :
      expand s (reach + 1) components es =
        expandEach (expandElement s (expand s reach)) components es := by
    cases es <;> rfl
  rw [hes] at hothers
  rw [hes, expandEach, hone]
  change (expandEach (expandElement s (expand s reach)) components₁ es >>= _) = _
  rw [hothers]
  rfl

section

variable {s : Setting} {components components' : Table Text Element} {e : Element}
  {below : Table Text Element → List Element → Except Fault (List Element × Table Text Element)}

/-- An import expands to what the elements of its file expand to. -/
theorem expandElement_imported {es : List Element}
    (himport : Vocabulary.importTags.contains e.name = true) (hes : imported s e.tag = .ok es) :
    expandElement s below components e = below components es := by
  rw [expandElement, if_pos himport, hes]
  rfl

/-- The use of a component expands to its template, filled in, with its children expanded. -/
theorem expandElement_used {template : Element} {children : List Element}
    (himport : Vocabulary.importTags.contains e.name = false)
    (hget : components.get? (known e).name = some template)
    (hbelow : below components (instantiate template (known e)).children =
      .ok (children, components')) :
    expandElement s below components e =
      .ok ([{ instantiate template (known e) with children }], components') := by
  rw [expandElement, himport, if_neg Bool.false_ne_true, hget]
  change (below components _ >>= _) = _
  rw [hbelow]
  rfl

/-- A definition expands to nothing, and its template is known from then on. -/
theorem expandElement_defined (himport : Vocabulary.importTags.contains e.name = false)
    (hget : components.get? (known e).name = none)
    (hdefinition : isDefinition (known e).tag = true) :
    expandElement s below components e =
      .ok ([], components.insert (known e).name (template (known e))) := by
  rw [expandElement, himport, if_neg Bool.false_ne_true, hget]
  exact if_pos hdefinition

/-- Any other element stays, under its usual name and with its children expanded. -/
theorem expandElement_kept {children : List Element}
    (himport : Vocabulary.importTags.contains e.name = false)
    (hget : components.get? (known e).name = none)
    (hdefinition : isDefinition (known e).tag = false)
    (hbelow : below components e.children = .ok (children, components')) :
    expandElement s below components e = .ok ([{ known e with children }], components') := by
  rw [expandElement, himport, if_neg Bool.false_ne_true, hget, hdefinition,
    if_neg Bool.false_ne_true, hbelow]
  rfl

end

/-! ### The second pass -/

/-- A pass over the elements without components, whatever the reader, gives the result and takes the
script service from one state to the other; it neither reads a file nor registers a component. -/
def Replays (options : Options) (inHead : Bool) (reach : Nat) (room : Room) (es : List Element)
    (r : Crawled) (before after : Script.Service) : Prop :=
  ∀ (read : File.Reader) (d : Desk), d.components = {} → d.scripts = before →
    ∃ d', (crawl ⟨options, read⟩ inHead reach room es).run d = .ok r d' ∧
      d'.reads = d.reads ∧ d'.components = {} ∧ d'.scripts = after

section

variable {options : Options} {inHead : Bool} {reach : Nat} {room : Room}

private theorem replays_nil (scripts : Script.Service) :
    Replays options inHead reach room [] {} scripts scripts := by
  intro read d hc hs
  exact ⟨d, crawl_nil reach room d, rfl, hc, hs⟩

private theorem Replays.append {es es' : List Element} {r r' : Crawled}
    {before between after : Script.Service}
    (h : Replays options inHead reach room es r before between)
    (h' : Replays options inHead reach room es' r' between after) :
    Replays options inHead reach room (es ++ es') (r.append r') before after := by
  intro read d hc hs
  obtain ⟨d₁, hrun, hr, hc₁, hs₁⟩ := h read d hc hs
  obtain ⟨d₂, hrun', hr', hc₂, hs₂⟩ := h' read d₁ hc₁ hs₁
  exact ⟨d₂, crawl_append hrun hrun', hr'.trans hr, hc₂, hs₂⟩

private theorem Replays.further {es : List Element} {r : Crawled} {before after : Script.Service}
    (h : Replays options inHead reach room es r before after) :
    Replays options inHead (reach + 1) room es r before after := by
  intro read d hc hs
  obtain ⟨d', hrun, hrest⟩ := h read d hc hs
  exact ⟨d', crawl_further hrun, hrest⟩

end

/-- An element that is neither an import nor a definition stays where it is. -/
theorem Replays.element {s : Setting} {inHead : Bool} {reach : Nat} {room : Room} {e : Element}
    {tag : Tag} {scripts : List Text} {children : List Element} {inner : Crawled} {d d₁ : Desk}
    {after : Script.Service} (hroom : room ≠ some 0)
    (himport : Vocabulary.importTags.contains e.tag.name = false)
    (hcanonical : canonical e.tag = e.tag) (hdefinition : isDefinition e.tag = false)
    (hexpand : (expandTag s e.tag).run d = .ok (tag, scripts) d₁)
    (h : Replays s.options inHead reach room.inner children inner d₁.scripts after) :
    Replays s.options inHead (reach + 1) room [{ e with children }]
      (placed inHead tag scripts inner) d.scripts after := by
  intro read d₀ hc hs
  obtain ⟨-, -, hsteady⟩ := expandTag_steady hexpand
  obtain ⟨log, hexpand₀⟩ := hsteady read d₀ hs
  obtain ⟨d', hrun, hrest⟩ := h read { d₀ with scripts := d₁.scripts, log } hc rfl
  refine ⟨d', crawl_cons.mpr ⟨hroom, placed inHead tag scripts inner, d', {}, ?_,
    crawl_nil _ room d', ?_⟩, hrest⟩
  · have hknown : (known { e with children }).tag = e.tag := hcanonical
    refine .kept himport ?_ ?_ ?_ hrun
    · rw [hc]
      rfl
    · rw [hknown]
      exact hdefinition
    · rw [hknown]
      exact hexpand₀
  · simp [Crawled.append]

/-! ### Two passes for one -/

/-- What a component's use leaves stays where it is in the second pass. -/
theorem Replays.used {s : Setting} {inHead : Bool} {reach : Nat} {room : Room}
    {template use : Element} {children : List Element} {inner : Crawled}
    {before after : Script.Service} (hroom : room ≠ some 0) (hname : template.name = "div")
    (h : Replays s.options inHead reach room.inner children inner before after) :
    Replays s.options inHead (reach + 1) room [{ instantiate template use with children }]
      { inner with
        elements := [{ instantiate template use with children := inner.elements }] }
      before after := by
  have hdiv : (instantiate template use).tag.name = "div" := hname
  have hplaced : placed inHead (instantiate template use).tag [] inner =
      { inner with
        elements := [{ instantiate template use with children := inner.elements }] } :=
    placed_other (Or.inr (isHeadTag_instantiate hname use)) [] inner
  have hstay : canonical (instantiate template use).tag = (instantiate template use).tag := by
    rw [canonical, hdiv]
    exact if_neg (by decide)
  have hexpand : (expandTag s (instantiate template use).tag).run { scripts := before } =
      .ok ((instantiate template use).tag, []) { scripts := before } := by
    rw [expandTag_of_plain s (by rw [hdiv]; decide) (by rw [hdiv]; decide)]
    rfl
  rw [← hplaced]
  refine Replays.element hroom ?_ hstay (isDefinition_instantiate template use) hexpand h
  rw [hdiv]
  decide

/-- One element, expanded first and then passed over, comes to what a single pass makes of it. -/
theorem CrawlsElement.expands {s : Setting} {inHead : Bool} {reach : Nat} {room : Room}
    {e : Element} {d d' : Desk} {r : Crawled} (hroom : room ≠ some 0)
    (h : CrawlsElement s inHead (crawl s inHead reach) room e d r d') (hdivs : AllDivs d.components)
    (ih : ∀ {room es d r d'}, (crawl s inHead reach room es).run d = .ok r d' →
      AllDivs d.components →
      ∃ expanded, expand s reach d.components es = .ok (expanded, d'.components) ∧
        Replays s.options inHead reach room expanded r d.scripts d'.scripts) :
    ∃ expanded,
      expandElement s (expand s reach) d.components e = .ok (expanded, d'.components) ∧
        Replays s.options inHead (reach + 1) room expanded r d.scripts d'.scripts := by
  cases h with
  | imported himport hread hbelow =>
    obtain ⟨hes, hc, hs⟩ := importElements_eq_ok hread
    obtain ⟨expanded, hexpand, hreplay⟩ := ih hbelow (hc ▸ hdivs)
    rw [hc] at hexpand
    rw [hs] at hreplay
    -- The file's elements take the place of the import, one step before they were found.
    exact ⟨expanded, (expandElement_imported himport hes).trans hexpand, hreplay.further⟩
  | used himport hget hbelow =>
    obtain ⟨children, hexpand, hreplay⟩ := ih hbelow hdivs
    exact ⟨_, expandElement_used himport hget hexpand, hreplay.used hroom (hdivs.name_eq hget)⟩
  | defined himport hget hdefinition =>
    exact ⟨[], expandElement_defined himport hget hdefinition, replays_nil d.scripts⟩
  | kept himport hget hdefinition hexpandTag hbelow =>
    obtain ⟨hc, -, -⟩ := expandTag_steady hexpandTag
    obtain ⟨children, hexpand, hreplay⟩ := ih hbelow (hc ▸ hdivs)
    rw [hc] at hexpand
    refine ⟨_, expandElement_kept himport hget hdefinition hexpand, ?_⟩
    exact Replays.element hroom (importTags_known himport) (canonical_canonical e.tag) hdefinition
      hexpandTag hreplay

/-- Expanding imports and components first, from the given table on, and then working through what
is left without a table gives what a single pass gives: the same elements, external scripts and
elements for the head. The second pass reads no file, whatever the reader. -/
theorem expansion_up_front {s : Setting} {inHead : Bool} {reach : Nat} {room : Room}
    {es : List Element} {d d' : Desk} {r : Crawled} (hdivs : AllDivs d.components)
    (h : (crawl s inHead reach room es).run d = .ok r d') :
    AllDivs d'.components ∧
      ∃ expanded, expand s reach d.components es = .ok (expanded, d'.components) ∧
        ∀ (read : File.Reader) (desk : Desk), desk.components = {} → desk.scripts = d.scripts →
          ∃ desk', (crawl ⟨s.options, read⟩ inHead reach room expanded).run desk = .ok r desk' ∧
            desk'.reads = desk.reads ∧ desk'.components = {} ∧ desk'.scripts = d'.scripts := by
  refine ⟨crawl_allDivs h hdivs, ?_⟩
  refine crawl_induction (P := fun reach room es d r d' => AllDivs d.components →
    ∃ expanded, expand s reach d.components es = .ok (expanded, d'.components) ∧
      Replays s.options inHead reach room expanded r d.scripts d'.scripts) ?_ ?_ h hdivs
  · intro reach room d _
    exact ⟨[], expand_nil s reach d.components, replays_nil d.scripts⟩
  · intro reach room e es d r₁ d₁ r₂ d' hroom hone ih hothers hdivs
    obtain ⟨first, hfirst, hreplay₁⟩ := hone.expands hroom hdivs ih
    obtain ⟨others, hrest, hreplay₂⟩ := hothers (hone.allDivs crawl_allDivs hdivs)
    exact ⟨first ++ others, expand_cons hfirst hrest, hreplay₁.append hreplay₂⟩

/-- A page that imports a component, in which another one is defined, and uses both. -/
def cardsPage : List Element :=
  [{ tag := { name := "@import", file := "index.spl", text := some "cards.spl".toList } },
    { tag := { name := "card", file := "index.spl" }
      children := [{ tag := { name := "note", file := "index.spl" } },
        { tag := { name := "css", file := "index.spl", text := some "p".toList } }] }]

/-- A store that holds the file that `cardsPage` imports. -/
def cardsSetting : Setting where
  options := { file := "index.spl" }
  read := fun path =>
    if path = "cards.spl" then .ok "card(@)\n\tnote(@)\n\t\tscript f()\n"
    else .error (.unavailable path)

/-- A desk on which scripts are compiled to themselves. -/
def plainDesk : Desk where
  scripts := { load := fun _ => { result := .ok fun job => .ok job.source } }

/-- An imported component inside of which another one is defined, and both are used. -/
theorem expansion_up_front_at_cards :
    ∃ r d', (crawl cardsSetting false 4 (some 3) cardsPage).run plainDesk = .ok r d' ∧
      (Outline.flatten 0 r.elements).map (fun e => (e.1, e.2.name)) =
        [(0, "div".toList), (1, "div".toList), (2, "script".toList)] ∧
      r.head.map (·.name) = ["style".toList] ∧
      ∃ expanded, expand cardsSetting 4 {} cardsPage = .ok (expanded, d'.components) ∧
        ∃ desk', (crawl { cardsSetting with read := fun path => .error (.unavailable path) } false 4
          (some 3) expanded).run plainDesk = .ok r desk' ∧ desk'.reads = [] := by
  have h : ((crawl cardsSetting false 4 (some 3) cardsPage).run' plainDesk).map
      (fun r => ((Outline.flatten 0 r.elements).map (fun e => (e.1, e.2.name)),
        r.head.map (·.name))) =
      some ([(0, "div".toList), (1, "div".toList), (2, "script".toList)],
        ["style".toList]) := by
    decide +kernel
  delta EStateM.run' at h
  cases hr : (crawl cardsSetting false 4 (some 3) cardsPage).run plainDesk with
  | error e d' =>
    rw [hr] at h
    cases h
  | ok r d' =>
    rw [hr] at h
    obtain ⟨helements, hhead⟩ := Prod.mk.inj (Option.some.inj h)
    obtain ⟨-, expanded, hexpand, hreplay⟩ := expansion_up_front allDivs_empty hr
    obtain ⟨desk', hrun, hreads, -⟩ :=
      hreplay (fun path => .error (.unavailable path)) plainDesk rfl rfl
    exact ⟨r, d', rfl, helements, hhead, expanded, hexpand, desk', hrun, hreads⟩

end OutlinePage.Page
