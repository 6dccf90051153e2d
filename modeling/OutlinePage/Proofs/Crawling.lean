import OutlinePage.Page.Crawl

/-!
# What working through elements comes to

The outcomes of working through one element, each with what led to it, and what follows from them
for whole documents: a greater reach changes nothing that was done within a smaller one, and all
registered templates are `div`s.
-/

namespace OutlinePage.Page

/-- Work that is done in two pieces comes to a result if both pieces do, one after the other. -/
theorem run_bind_eq_ok {α β : Type} {x : Work α} {f : α → Work β} {d d'' : Desk} {b : β} :
    (x >>= f).run d = .ok b d'' ↔ ∃ a d', x.run d = .ok a d' ∧ (f a).run d' = .ok b d'' := by
  rw [EStateM.run_bind]
  cases x.run d with
  | ok a d' =>
    constructor
    · intro h
      exact ⟨a, d', rfl, h⟩
    · rintro ⟨_, _, hx, hf⟩
      cases hx
      exact hf
  | error e d' => simp

/-- Work that only gives a value gives that one and leaves the desk. -/
theorem run_pure_eq_ok {α : Type} {a b : α} {d d' : Desk} :
    (pure a : Work α).run d = .ok b d' ↔ b = a ∧ d' = d := by
  rw [EStateM.run_pure, EStateM.Result.ok.injEq, eq_comm, eq_comm (a := d)]

/-- Work that was seen to end well. -/
theorem exists_run_of_run' {α : Type} {x : Work α} {d : Desk} {a : α} (h : x.run' d = some a) :
    ∃ d', x.run d = .ok a d' := by
  delta EStateM.run' at h
  cases hx : x.run d with
  | ok b d' =>
    rw [hx] at h
    cases h
    exact ⟨d', rfl⟩
  | error e d' =>
    rw [hx] at h
    cases h

/-- What is seen of a result tells that there is one. -/
theorem exists_run_of_map {α β : Type} {x : Work α} {d : Desk} {f : α → β} {b : β}
    (h : (x.run' d).map f = some b) : ∃ a d', x.run d = .ok a d' ∧ f a = b := by
  obtain ⟨a, ha, rfl⟩ := Option.map_eq_some_iff.mp h
  obtain ⟨d', hrun⟩ := exists_run_of_run' ha
  exact ⟨a, d', hrun, rfl⟩

/-- A result that can be had without its faults is no fault. -/
theorem toOption_eq_some {ε α : Type} {x : Except ε α} {a : α} (h : x.toOption = some a) :
    x = .ok a := by
  cases x with
  | error e => cases h
  | ok b => exact congrArg Except.ok (Option.some.inj h)

/-! ### Shorthands of a tag -/

/-- The script to compile that is written in a tag, if there is one. -/
def inlineScript (t : Tag) : Option Text :=
  if t.name = "script" ∧ t.attributes.get? "src" = none then t.text? else none

/-- The tag with its shorthands written out, unless it holds a script to compile, and the external
script that it names. -/
def shorthand (o : Options) (t : Tag) : Tag × List Text :=
  if t.name = "style" then (linkStyle t, [])
  else if t.name = "script" then
    match t.attributes.get? "src" with
    | some src =>
      (if o.convertScripts then
          { t with attributes := t.attributes.insert "src" (compiledName src) } else t,
        if (Text.unquote src).isEmpty then [] else [Text.unquote src])
    | none => (t, [])
  else (t, [])

/-- A tag is expanded by compiling its inline script, if it has one, and by its shorthands
otherwise. -/
theorem expandTag_eq (s : Setting) (t : Tag) :
    expandTag s t = match inlineScript t with
      | none => pure (shorthand s.options t)
      | some source => do
        let code ← compileInline s t source
        return ({ t with text := some code }, []) := by
  rw [expandTag, inlineScript, shorthand]
  by_cases hstyle : t.name = "style"
  · have hscript : ¬ t.name = "script" := by rw [hstyle]; decide
    rw [if_pos hstyle, if_pos hstyle, if_neg fun h => hscript h.1]
  · rw [if_neg hstyle, if_neg hstyle]
    by_cases hscript : t.name = "script"
    · rw [if_pos hscript, if_pos hscript]
      cases hsrc : t.attributes.get? "src" with
      | none => cases t.text? <;> rw [if_pos ⟨hscript, rfl⟩]
      | some src => rw [if_neg fun h => by cases h.2]
    · rw [if_neg hscript, if_neg hscript, if_neg fun h => hscript h.1]

/-- A tag that is neither a style nor a script is left as it is. -/
theorem expandTag_of_plain (s : Setting) {t : Tag} (hstyle : t.name ≠ "style")
    (hscript : t.name ≠ "script") : expandTag s t = pure (t, []) := by
  rw [expandTag, if_neg hstyle, if_neg hscript]

/-- How a script in a tag is to be compiled. -/
def jobOf (o : Options) (t : Tag) (source : Text) : Script.Job :=
  if o.final then { source, minify := true } else { source, file := some t.file }

/-- Compiling an inline script asks the script service, and adds to the log what it says. -/
theorem compileInline_run (s : Setting) (t : Tag) (source : Text) (d : Desk) :
    (compileInline s t source).run d =
      match d.scripts.compile (jobOf s.options t source) with
      | (.ok code, scripts, log) => .ok code { d with scripts, log := d.log ++ log }
      | (.error fault, scripts, log) =>
        .error (.script fault) { d with scripts, log := d.log ++ log } := by
  rcases hc : d.scripts.compile (jobOf s.options t source) with ⟨result, scripts, log⟩
  rw [jobOf] at hc
  have hget : (get : Work Desk).run d = .ok d d := rfl
  simp only [compileInline, EStateM.run_bind, hget, hc]
  cases result <;> rfl

/-- Compiling a script changes the script service and the log only. -/
theorem compileInline_eq_ok {s : Setting} {t : Tag} {source code : Text} {d d' : Desk} :
    (compileInline s t source).run d = .ok code d' ↔ ∃ scripts log,
      d.scripts.compile (jobOf s.options t source) = (.ok code, scripts, log) ∧
        d' = { d with scripts, log := d.log ++ log } := by
  rw [compileInline_run]
  rcases d.scripts.compile (jobOf s.options t source) with ⟨result, scripts, log⟩
  cases result with
  | error fault => simp
  | ok found =>
    constructor
    · intro h
      cases h
      exact ⟨scripts, log, rfl, rfl⟩
    · rintro ⟨scripts', log', hresult, rfl⟩
      cases hresult
      rfl

/-- Writing out shorthands leaves components and reads alone, and needs no more than the options
and the script service. -/
theorem expandTag_steady {s : Setting} {t : Tag} {a : Tag × List Text} {d d' : Desk}
    (h : (expandTag s t).run d = .ok a d') :
    d'.components = d.components ∧ d'.reads = d.reads ∧
      ∀ read (d₀ : Desk), d₀.scripts = d.scripts → ∃ log,
        (expandTag ⟨s.options, read⟩ t).run d₀ = .ok a { d₀ with scripts := d'.scripts, log } := by
  rw [expandTag_eq] at h
  split at h
  · next hnone =>
    obtain ⟨rfl, rfl⟩ := run_pure_eq_ok.mp h
    refine ⟨rfl, rfl, ?_⟩
    intro read d₀ hd₀
    refine ⟨d₀.log, ?_⟩
    rw [expandTag_eq, hnone, ← hd₀]
    rfl
  · next source hsome =>
    obtain ⟨code, d₁, hcompile, hret⟩ := run_bind_eq_ok.mp h
    obtain ⟨rfl, rfl⟩ := run_pure_eq_ok.mp hret
    obtain ⟨scripts, log, hc, rfl⟩ := compileInline_eq_ok.mp hcompile
    refine ⟨rfl, rfl, ?_⟩
    intro read d₀ hd₀
    refine ⟨d₀.log ++ log, ?_⟩
    rw [expandTag_eq, hsome, run_bind_eq_ok]
    exact ⟨code, _, compileInline_eq_ok.mpr ⟨scripts, log, hd₀ ▸ hc, rfl⟩, rfl⟩

/-! ### Imports -/

/-- The elements of the file that an import names, without a trace. -/
def imported (s : Setting) (t : Tag) : Except Fault (List Element) :=
  let named := Text.strip (t.text.getD [])
  if named.isEmpty then .error (.mistaken ⟨.missingFile, t.file, t.position⟩)
  else
    let path := importPath t named
    match s.read path with
    | .error fault => .error (.unreadable path t.file fault)
    | .ok source => (Outline.read source (s.options.forImport path)).mapError .mistaken

private theorem fetch_eq_ok {s : Setting} {path importer source : Text} {d d' : Desk}
    (h : (fetch s path importer).run d = .ok source d') :
    s.read path = .ok source ∧ d'.components = d.components ∧ d'.scripts = d.scripts := by
  rw [fetch, run_bind_eq_ok] at h
  obtain ⟨_, d₁, hmodify, hmatch⟩ := h
  cases hmodify
  cases hread : s.read path with
  | error fault =>
    rw [hread] at hmatch
    cases hmatch
  | ok found =>
    rw [hread] at hmatch
    cases hmatch
    exact ⟨rfl, rfl, rfl⟩

/-- The elements of an outline are those that reading gives; reading leaves the components and the
script service. -/
theorem readOutline_eq_ok {source : Text} {o : Options} {es : List Element} {d d' : Desk}
    (h : (readOutline source o).run d = .ok es d') :
    Outline.read source o = .ok es ∧ d'.components = d.components ∧ d'.scripts = d.scripts := by
  rw [readOutline, run_bind_eq_ok] at h
  obtain ⟨_, d₁, hmodify, hmatch⟩ := h
  cases hmodify
  cases hread : Outline.read source o with
  | error e =>
    rw [hread] at hmatch
    cases hmatch
  | ok found =>
    rw [hread] at hmatch
    cases hmatch
    exact ⟨rfl, rfl, rfl⟩

/-- The elements of an import are those of the file; importing leaves the components and the script
service. -/
theorem importElements_eq_ok {s : Setting} {t : Tag} {es : List Element} {d d' : Desk}
    (h : (importElements s t).run d = .ok es d') :
    imported s t = .ok es ∧ d'.components = d.components ∧ d'.scripts = d.scripts := by
  rw [imported]
  cases hnamed : (Text.strip (t.text.getD [])).isEmpty with
  | true =>
    rw [importElements, if_pos hnamed] at h
    cases h
  | false =>
    rw [importElements, hnamed, if_neg Bool.false_ne_true, run_bind_eq_ok] at h
    obtain ⟨source, d₁, hfetch, h⟩ := h
    obtain ⟨_, d₂, hreport, hread⟩ := run_bind_eq_ok.mp h
    cases hreport
    obtain ⟨hs, hc₁, hs₁⟩ := fetch_eq_ok hfetch
    obtain ⟨ho, hc₂, hs₂⟩ := readOutline_eq_ok hread
    simp only [Bool.false_eq_true, if_false, hs, ho]
    exact ⟨rfl, hc₂.trans hc₁, hs₂.trans hs₁⟩

/-! ### One element -/

/-- The element under the name it goes by. -/
def known (e : Element) : Element := { e with tag := canonical e.tag }

/-- A tag under its usual name has no other one. -/
theorem canonical_canonical (t : Tag) : canonical (canonical t) = canonical t := by
  by_cases h : t.name = "css"
  · have hstyle : canonical t = { t with name := "style" } := if_pos h
    rw [hstyle]
    exact if_neg (show ¬ ("style".toList = "css".toList) by decide)
  · have hsame : canonical t = t := if_neg h
    rw [hsame, hsame]

/-- An element that is no import is none under its usual name either. -/
theorem importTags_known {e : Element} (h : Vocabulary.importTags.contains e.name = false) :
    Vocabulary.importTags.contains (known e).tag.name = false := by
  change Vocabulary.importTags.contains (canonical e.tag).name = false
  rw [canonical]
  split
  · exact (show Vocabulary.importTags.contains "style".toList = false by decide)
  · exact h

/-- No usual name is `css`. -/
theorem canonical_ne_css (t : Tag) : (canonical t).name ≠ "css" := by
  rw [canonical]
  split
  · exact (show "style".toList ≠ "css".toList by decide)
  · assumption

/-- A tag is a definition under its usual name if it is one under the other. -/
theorem isDefinition_canonical (t : Tag) : isDefinition (canonical t) = isDefinition t := by
  rw [canonical]
  split <;> rfl

/-- The desk after a component was registered. -/
def registered (definition : Element) (d : Desk) : Desk :=
  { d with
    components := d.components.insert definition.name (template definition)
    log := d.log ++ [⟨.debug, "Registered component " ++ definition.name ++ " from " ++
      definition.tag.file⟩] }

/-- An element in its place, with what was found below it. -/
def placed (inHead : Bool) (tag : Tag) (scripts : List Text) (inner : Crawled) : Crawled :=
  if !inHead && Vocabulary.headTags.contains tag.name then
    ⟨[], scripts ++ inner.scripts, inner.head ++ [⟨tag, inner.elements⟩]⟩
  else ⟨[⟨tag, inner.elements⟩], scripts ++ inner.scripts, inner.head⟩

/-- Does the tag belong in the head? -/
def isHeadTag (t : Tag) : Bool := Vocabulary.headTags.contains t.name

/-- A tag that belongs in the head is set apart, after what belongs there of its children. -/
theorem placed_head {tag : Tag} (h : isHeadTag tag = true) (scripts : List Text)
    (inner : Crawled) :
    placed false tag scripts inner =
      ⟨[], scripts ++ inner.scripts, inner.head ++ [⟨tag, inner.elements⟩]⟩ :=
  if_pos h

/-- A tag that may stay does so, with those of its children that stay. -/
theorem placed_other {inHead : Bool} {tag : Tag} (h : inHead = true ∨ isHeadTag tag = false)
    (scripts : List Text) (inner : Crawled) :
    placed inHead tag scripts inner =
      ⟨[⟨tag, inner.elements⟩], scripts ++ inner.scripts, inner.head⟩ := by
  refine if_neg ?_
  rcases h with rfl | h
  · exact Bool.false_ne_true
  · rw [isHeadTag] at h
    rw [h, Bool.and_false]
    exact Bool.false_ne_true

/-- The use of a component whose template is a `div` stays where it is. -/
theorem isHeadTag_instantiate {template : Element} (h : template.name = "div") (use : Element) :
    isHeadTag (instantiate template use).tag = false := by
  have hdiv : (instantiate template use).tag.name = "div" := h
  rw [isHeadTag, hdiv]
  decide

/-- The ways to work through one element. -/
inductive CrawlsElement (s : Setting) (inHead : Bool) (below : Room → List Element → Work Crawled)
    (room : Room) (e : Element) (d : Desk) : Crawled → Desk → Prop where
  /-- An import gives way to the elements of the file. -/
  | imported {es : List Element} {d₁ d' : Desk} {r : Crawled}
      (himport : Vocabulary.importTags.contains e.name = true)
      (hread : (importElements s e.tag).run d = .ok es d₁)
      (hbelow : (below room es).run d₁ = .ok r d') :
      CrawlsElement s inHead below room e d r d'
  /-- The name of a component gives way to its template. -/
  | used {template : Element} {d' : Desk} {inner : Crawled}
      (himport : Vocabulary.importTags.contains e.name = false)
      (hget : d.components.get? (known e).name = some template)
      (hbelow : (below room.inner (instantiate template (known e)).children).run d =
        .ok inner d') :
      CrawlsElement s inHead below room e d
        { inner with
          elements := [{ instantiate template (known e) with children := inner.elements }] } d'
  /-- A definition is put aside. -/
  | defined
      (himport : Vocabulary.importTags.contains e.name = false)
      (hget : d.components.get? (known e).name = none)
      (hdefinition : isDefinition (known e).tag = true) :
      CrawlsElement s inHead below room e d {} (registered (known e) d)
  /-- Any other element stays. -/
  | kept {tag : Tag} {scripts : List Text} {d₁ d' : Desk} {inner : Crawled}
      (himport : Vocabulary.importTags.contains e.name = false)
      (hget : d.components.get? (known e).name = none)
      (hdefinition : isDefinition (known e).tag = false)
      (hexpand : (expandTag s (known e).tag).run d = .ok (tag, scripts) d₁)
      (hbelow : (below room.inner e.children).run d₁ = .ok inner d') :
      CrawlsElement s inHead below room e d (placed inHead tag scripts inner) d'

/-- Any element but an import is looked up among the components first. -/
theorem crawlElement_run {s : Setting} {inHead : Bool}
    {below : Room → List Element → Work Crawled} {room : Room} {e : Element} {d : Desk}
    (himport : Vocabulary.importTags.contains e.name = false) :
    (crawlElement s inHead below room e).run d =
      match d.components.get? (known e).name with
      | some template => (do
          let inner ← below room.inner (instantiate template (known e)).children
          return { inner with
            elements := [{ instantiate template (known e) with children := inner.elements }] } :
          Work Crawled).run d
      | none =>
        if isDefinition (known e).tag then .ok {} (registered (known e) d)
        else (do
          let (tag, scripts) ← expandTag s (known e).tag
          let inner ← below room.inner e.children
          return placed inHead tag scripts inner : Work Crawled).run d := by
  rw [crawlElement, himport, if_neg Bool.false_ne_true]
  change (match d.components.get? (known e).name with
    | some _ => _
    | none => _ : Work Crawled).run d = _
  cases d.components.get? (known e).name with
  | some template => rfl
  | none =>
    change (if isDefinition (known e).tag = true then _ else _ : Work Crawled).run d = _
    cases isDefinition (known e).tag with
    | true => rfl
    | false =>
      rw [if_neg Bool.false_ne_true, if_neg Bool.false_ne_true]
      refine congrArg (EStateM.run · d) ?_
      refine bind_congr fun (tag, scripts) => bind_congr fun inner => ?_
      rw [placed]
      split <;> rfl

private theorem crawlElement_eq_ok {s : Setting} {inHead : Bool}
    {below : Room → List Element → Work Crawled} {room : Room} {e : Element} {d d' : Desk}
    {r : Crawled} :
    (crawlElement s inHead below room e).run d = .ok r d' ↔
      CrawlsElement s inHead below room e d r d' := by
  cases himport : Vocabulary.importTags.contains e.name with
  | true =>
    rw [crawlElement, if_pos himport, run_bind_eq_ok]
    constructor
    · rintro ⟨es, d₁, hread, hbelow⟩
      exact .imported himport hread hbelow
    · intro h
      cases h with
      | imported _ hread hbelow => exact ⟨_, _, hread, hbelow⟩
      | used h | defined h | kept h => rw [himport] at h; cases h
  | false =>
    rw [crawlElement_run himport]
    constructor
    · intro h
      split at h
      · next template hget =>
        obtain ⟨inner, d₁, hbelow, hret⟩ := run_bind_eq_ok.mp h
        obtain ⟨rfl, rfl⟩ := run_pure_eq_ok.mp hret
        exact .used himport hget hbelow
      · next hget =>
        split at h
        · next hdefinition =>
          cases h
          exact .defined himport hget hdefinition
        · next hdefinition =>
          obtain ⟨⟨tag, scripts⟩, d₁, hexpand, h⟩ := run_bind_eq_ok.mp h
          obtain ⟨inner, d₂, hbelow, hret⟩ := run_bind_eq_ok.mp h
          obtain ⟨rfl, rfl⟩ := run_pure_eq_ok.mp hret
          exact .kept himport hget (Bool.eq_false_iff.mpr hdefinition) hexpand hbelow
    · intro h
      cases h with
      | imported h => rw [himport] at h; cases h
      | used _ hget hbelow =>
        rw [hget]
        exact run_bind_eq_ok.mpr ⟨_, _, hbelow, rfl⟩
      | defined _ hget hdefinition =>
        rw [hget]
        exact if_pos hdefinition
      | kept _ hget hdefinition hexpand hbelow =>
        rw [hget, hdefinition]
        exact run_bind_eq_ok.mpr ⟨_, _, hexpand, run_bind_eq_ok.mpr ⟨_, _, hbelow, rfl⟩⟩

/-! ### Many elements -/

section

variable {s : Setting} {inHead : Bool}

/-- There is nothing to be done for no elements. -/
theorem crawl_nil (reach : Nat) (room : Room) (d : Desk) :
    (crawl s inHead reach room []).run d = .ok {} d := by
  cases reach <;> rfl

/-- Without reach, no element is worked through. -/
theorem crawl_zero_cons {room : Room} {e : Element} {es : List Element} {d d' : Desk}
    {r : Crawled} : (crawl s inHead 0 room (e :: es)).run d ≠ .ok r d' := by
  intro h
  cases h

private theorem crawl_full_cons {reach : Nat} {e : Element} {es : List Element} {d d' : Desk}
    {r : Crawled} : (crawl s inHead (reach + 1) (some 0) (e :: es)).run d ≠ .ok r d' := by
  intro h
  cases h

/-- Where there is room, elements are worked through one after the other. -/
theorem crawl_succ (reach : Nat) {room : Room} (hroom : room ≠ some 0) (es : List Element) :
    crawl s inHead (reach + 1) room es =
      crawlEach (crawlElement s inHead (crawl s inHead reach) room) es := by
  cases es with
  | nil => rfl
  | cons e es =>
    match room with
    | none => rfl
    | some 0 => exact absurd rfl hroom
    | some (n + 1) => rfl

/-- Elements are worked through if there is room for them, first the first one and then the others.
-/
theorem crawl_cons {reach : Nat} {room : Room} {e : Element} {es : List Element} {d d' : Desk}
    {r : Crawled} :
    (crawl s inHead (reach + 1) room (e :: es)).run d = .ok r d' ↔ room ≠ some 0 ∧ ∃ r₁ d₁ r₂,
      CrawlsElement s inHead (crawl s inHead reach) room e d r₁ d₁ ∧
        (crawl s inHead (reach + 1) room es).run d₁ = .ok r₂ d' ∧ r = r₁.append r₂ := by
  by_cases hroom : room = some 0
  · subst hroom
    exact iff_of_false crawl_full_cons fun h => h.1 rfl
  · rw [crawl_succ reach hroom, crawl_succ reach hroom, crawlEach, run_bind_eq_ok]
    constructor
    · rintro ⟨r₁, d₁, hone, h⟩
      obtain ⟨r₂, d₂, hothers, hret⟩ := run_bind_eq_ok.mp h
      obtain ⟨rfl, rfl⟩ := run_pure_eq_ok.mp hret
      exact ⟨hroom, r₁, d₁, r₂, crawlElement_eq_ok.mp hone, hothers, rfl⟩
    · rintro ⟨-, r₁, d₁, r₂, hone, hothers, rfl⟩
      exact ⟨r₁, d₁, crawlElement_eq_ok.mpr hone, run_bind_eq_ok.mpr ⟨r₂, d', hothers, rfl⟩⟩

/-- Proves something about all successful work, element by element. What is proved may be used of
everything that an element leads to. -/
theorem crawl_induction {P : Nat → Room → List Element → Desk → Crawled → Desk → Prop}
    (nil : ∀ reach room d, P reach room [] d {} d)
    (cons : ∀ {reach room e es d r₁ d₁ r₂ d'}, room ≠ some 0 →
      CrawlsElement s inHead (crawl s inHead reach) room e d r₁ d₁ →
      (∀ {room es d r d'}, (crawl s inHead reach room es).run d = .ok r d' →
        P reach room es d r d') →
      P (reach + 1) room es d₁ r₂ d' → P (reach + 1) room (e :: es) d (r₁.append r₂) d')
    {reach : Nat} {room : Room} {es : List Element} {d d' : Desk} {r : Crawled}
    (h : (crawl s inHead reach room es).run d = .ok r d') : P reach room es d r d' := by
  -- The induction on the reach is for what an element leads to, the one on the list for the rest.
  induction reach generalizing room es d r d' with
  | zero =>
    cases es with
    | nil =>
      cases h
      exact nil 0 room _
    | cons e es => exact absurd h crawl_zero_cons
  | succ reach ih =>
    induction es generalizing d r with
    | nil =>
      cases h
      exact nil (reach + 1) room _
    | cons e es ihes =>
      obtain ⟨hroom, r₁, d₁, r₂, hone, hothers, rfl⟩ := crawl_cons.mp h
      exact cons hroom hone ih (ihes hothers)

/-- Elements that follow others are worked through after them. -/
theorem crawl_append {reach : Nat} {room : Room} {es es' : List Element} {d d₁ d' : Desk}
    {r r' : Crawled} (h : (crawl s inHead reach room es).run d = .ok r d₁)
    (h' : (crawl s inHead reach room es').run d₁ = .ok r' d') :
    (crawl s inHead reach room (es ++ es')).run d = .ok (r.append r') d' := by
  refine crawl_induction (P := fun reach room es d r d₁ =>
    (crawl s inHead reach room es').run d₁ = .ok r' d' →
      (crawl s inHead reach room (es ++ es')).run d = .ok (r.append r') d') ?_ ?_ h h'
  · intro reach room d h'
    exact h'
  · intro reach room e es d r₁ d₁ r₂ d₂ hroom hone _ hothers h'
    refine crawl_cons.mpr ⟨hroom, r₁, d₁, r₂.append r', hone, hothers h', ?_⟩
    simp only [Crawled.append, List.append_assoc]

end

/-! ### A greater reach -/

/-- The second work does what the first one does, unless the first one is unfinished. -/
def Continues {α : Type} (x y : Work α) : Prop :=
  ∀ d, (∃ d', x.run d = .error .unfinished d') ∨ y.run d = x.run d

/-- Work continues itself. -/
theorem Continues.refl {α : Type} (x : Work α) : Continues x x := fun _ => .inr rfl

/-- Work that is done in two pieces is continued if both pieces are. -/
theorem Continues.bind {α β : Type} {x y : Work α} {f g : α → Work β} (h : Continues x y)
    (hf : ∀ a, Continues (f a) (g a)) : Continues (x >>= f) (y >>= g) := by
  intro d
  rw [EStateM.run_bind, EStateM.run_bind]
  rcases h d with ⟨d', hx⟩ | hxy
  · rw [hx]
    exact .inl ⟨d', rfl⟩
  · rw [hxy]
    cases x.run d with
    | ok a d' => exact hf a d'
    | error fault d' => exact .inr rfl

private theorem Continues.trans {α : Type} {x y z : Work α} (h : Continues x y)
    (h' : Continues y z) :
    Continues x z := by
  intro d
  rcases h d with hx | hxy
  · exact .inl hx
  · rcases h' d with ⟨d', hy⟩ | hyz
    · exact .inl ⟨d', hxy.symm.trans hy⟩
    · exact .inr (hyz.trans hxy)

private theorem continues_crawlElement {s : Setting} {inHead : Bool}
    {below below' : Room → List Element → Work Crawled}
    (hbelow : ∀ room es, Continues (below room es) (below' room es)) (room : Room) (e : Element) :
    Continues (crawlElement s inHead below room e) (crawlElement s inHead below' room e) := by
  rw [crawlElement, crawlElement]
  split
  · exact (Continues.refl _).bind fun es => hbelow room es
  · refine (Continues.refl _).bind fun found => ?_
    cases found with
    | some template => exact (hbelow _ _).bind fun _ => .refl _
    | none =>
      dsimp only
      split
      · exact .refl _
      · exact (Continues.refl _).bind fun _ => (hbelow _ _).bind fun _ => .refl _

private theorem continues_crawlEach {one one' : Element → Work Crawled}
    (hone : ∀ e, Continues (one e) (one' e)) (es : List Element) :
    Continues (crawlEach one es) (crawlEach one' es) := by
  induction es with
  | nil => exact .refl _
  | cons e es ih => exact (hone e).bind fun _ => ih.bind fun _ => .refl _

/-- What is finished within a reach comes out in the same way within a greater one. -/
theorem crawl_continues {s : Setting} {inHead : Bool} {reach reach' : Nat} (h : reach ≤ reach')
    (room : Room) (es : List Element) :
    Continues (crawl s inHead reach room es) (crawl s inHead reach' room es) := by
  have hstep (reach : Nat) : ∀ room es,
      Continues (crawl s inHead reach room es) (crawl s inHead (reach + 1) room es) := by
    induction reach with
    | zero =>
      intro room es
      cases es with
      | nil => exact .refl _
      | cons e es => exact fun d => .inl ⟨d, rfl⟩
    | succ reach ih =>
      intro room es
      by_cases hroom : room = some 0
      · subst hroom
        cases es <;> exact .refl _
      · rw [crawl_succ reach hroom, crawl_succ (reach + 1) hroom]
        exact continues_crawlEach (continues_crawlElement ih room) es
  induction h with
  | refl => exact .refl _
  | @step reach' _ ih => exact ih.trans (hstep reach' room es)

/-- What is done within a reach is done in the same way within a greater one. -/
theorem crawl_further {s : Setting} {inHead : Bool} {reach : Nat} {room : Room}
    {es : List Element} {d d' : Desk} {r : Crawled}
    (h : (crawl s inHead reach room es).run d = .ok r d') :
    (crawl s inHead (reach + 1) room es).run d = .ok r d' := by
  rcases crawl_continues (Nat.le_succ reach) room es d with ⟨d₁, hunfinished⟩ | hsame
  · rw [h] at hunfinished
    cases hunfinished
  · exact hsame.trans h

/-! ### Templates -/

/-- A template is no definition. -/
theorem isDefinition_template (definition : Element) :
    isDefinition (template definition).tag = false := by
  rw [isDefinition, Table.contains, template, Table.get?_erase_self]
  rfl

/-- The use of a component is no definition. -/
theorem isDefinition_instantiate (template use : Element) :
    isDefinition (instantiate template use).tag = false := by
  rw [isDefinition, Table.contains, instantiate, Table.get?_erase_self]
  rfl

/-- All templates of the table are `div`s. -/
def AllDivs (components : Table Text Element) : Prop :=
  ∀ entry ∈ components.entries, entry.2.name = "div"

/-- In a table without templates all of them are a `div`. -/
theorem allDivs_empty : AllDivs {} := fun _ h => by cases h

/-- A template that is found in such a table is a `div`. -/
theorem AllDivs.name_eq {components : Table Text Element} (h : AllDivs components) {k : Text}
    {template : Element} (hget : components.get? k = some template) : template.name = "div" := by
  exact h _ (Table.mem_of_find? hget)

private theorem AllDivs.registered {d : Desk} (h : AllDivs d.components) (definition : Element) :
    AllDivs (registered definition d).components := by
  intro entry he
  rcases Table.mem_put he with he | he
  · exact h entry he
  · rw [he]
    rfl

/-- Working through an element adds only templates that are a `div`, if working through those below
does. -/
theorem CrawlsElement.allDivs {s : Setting} {inHead : Bool}
    {below : Room → List Element → Work Crawled} {room : Room} {e : Element} {d d' : Desk}
    {r : Crawled} (h : CrawlsElement s inHead below room e d r d')
    (hbelow : ∀ {room es d r d'}, (below room es).run d = .ok r d' →
      AllDivs d.components → AllDivs d'.components)
    (hd : AllDivs d.components) : AllDivs d'.components := by
  cases h with
  | imported himport hread hrest =>
    apply hbelow hrest
    rw [(importElements_eq_ok hread).2.1]
    exact hd
  | used himport hget hrest => exact hbelow hrest hd
  | defined himport hget hdefinition => exact hd.registered (known e)
  | kept himport hget hdefinition hexpand hrest =>
    apply hbelow hrest
    rw [(expandTag_steady hexpand).1]
    exact hd

/-- Only `div`s are ever registered. -/
theorem crawl_allDivs {s : Setting} {inHead : Bool} {reach : Nat} {room : Room}
    {es : List Element} {d d' : Desk} {r : Crawled}
    (h : (crawl s inHead reach room es).run d = .ok r d') :
    AllDivs d.components → AllDivs d'.components := by
  refine crawl_induction (P := fun _ _ _ d _ d' => AllDivs d.components → AllDivs d'.components)
    (fun _ _ _ => id) ?_ h
  intro reach room e es d r₁ d₁ r₂ d' _ hone ih hothers hd
  exact hothers (hone.allDivs ih hd)

end OutlinePage.Page
