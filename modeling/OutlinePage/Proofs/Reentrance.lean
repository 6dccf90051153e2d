import OutlinePage.Proofs.CheckedCrawl
import OutlinePage.Proofs.Expansion
import OutlinePage.Proofs.Forest
import OutlinePage.Proofs.PageSteps

/-!
# Endless documents

A document is endless only if an import or a component leads back to itself. The checked crawl ends
on every document: an element leads to lower elements with the same chain, or to others with a
longer chain, and no chain is longer than there are files and names. If it meets no cycle, the crawl
ends in the same way. Where there are no components, a cycle is a file that is imported while it is
being worked through, and working through it once more leads to the same place again.
-/

namespace OutlinePage.Page

/-! ### Work that is finished -/

/-- The work does not end unfinished. -/
def Finishes {α : Type} (x : Work α) : Prop := ∀ d d', x.run d ≠ .error .unfinished d'

private theorem finishes_throw {α : Type} {fault : Fault} (hfault : fault ≠ .unfinished) :
    Finishes (throw fault : Work α) := by
  intro d d' h
  cases h
  exact hfault rfl

private theorem Finishes.bind {α β : Type} {x : Work α} {f : α → Work β} (hx : Finishes x)
    (hf : ∀ a, Finishes (f a)) : Finishes (x >>= f) := by
  intro d d' h
  rw [EStateM.run_bind] at h
  cases hrun : x.run d with
  | ok a d₁ =>
    rw [hrun] at h
    exact hf a d₁ d' h
  | error fault d₁ =>
    rw [hrun] at h
    cases h
    exact hx d d' hrun

/-- No single step of the work on a page ends unfinished. -/
theorem stepwise_finishes (o : Options) : Stepwise o fun _ x => ∀ read, Finishes (x read) where
  pure _ _ _ _ h := nomatch h
  bind hx hf read := (hx read).bind fun a => hf a read
  mistaken _ _ := finishes_throw nofun
  log _ _ _ _ h := nomatch h
  fetch path importer read := by
    refine Finishes.bind (fun _ _ h => nomatch h) fun _ => ?_
    split
    · exact fun _ _ h => nomatch h
    · exact finishes_throw nofun
  compileInline t source read := by
    intro d d' h
    rw [compileInline_run] at h
    split at h <;> cases h
  lookUp _ _ _ _ h := nomatch h
  register _ _ _ _ h := nomatch h

/-- A visit does not end unfinished. -/
theorem finishes_visit (s : Setting) (inHead : Bool) (e : Element) :
    Finishes (visit s inHead e) := by
  have hsteps := stepwise_finishes s.options
  cases himport : Vocabulary.importTags.contains e.name with
  | true =>
    rw [visit_import himport]
    exact (hsteps.importElements e.tag s.read).bind fun es => hsteps.pure _ s.read
  | false =>
    intro d d' h
    rw [visit_run himport] at h
    split at h
    · cases h
    · split at h
      · cases h
      · exact (hsteps.expandTag (known e).tag s.read).bind (fun _ => hsteps.pure _ s.read) d d' h

/-! ### A checked crawl ends -/

/-- The elements have no more than the given levels, and only components of these names are used or
defined in them. -/
structure Within (origins : List Origin) (levels : Nat) (es : List Element) : Prop where
  height_le : height es ≤ levels
  names : ∀ t ∈ tags es, .component (canonical t).name ∈ origins

private theorem Within.of_subset {origins : List Origin} {levels : Nat} {es es' : List Element}
    (h : Within origins levels es) (hsubset : es' ⊆ es) : Within origins levels es' where
  height_le := height_le_iff.mpr fun e he => height_le_iff.mp h.height_le e (hsubset he)
  names := by
    intro t ht
    obtain ⟨e, he, ht⟩ := mem_tags.mp ht
    exact h.names t (mem_tags_of_mem (hsubset he) ht)

private theorem Within.of_mem {origins : List Origin} {levels : Nat} {es : List Element}
    (h : Within origins levels es) {e : Element} (he : e ∈ es) : Within origins levels [e] :=
  h.of_subset (List.cons_subset.mpr ⟨he, List.nil_subset es⟩)

private theorem Within.children {origins : List Origin} {levels : Nat} {e : Element}
    (h : Within origins levels [e]) : Within origins levels e.children where
  height_le := Nat.le_of_lt (height_le_iff.mp h.height_le e List.mem_cons_self)
  names := fun t ht => h.names t (mem_tags_of_children ht)

private theorem Within.name {origins : List Origin} {levels : Nat} {e : Element}
    (h : Within origins levels [e]) : .component (known e).name ∈ origins :=
  h.names e.tag (tag_mem_tags e)

/-- All files and names that can be on a chain, and the levels that their elements can have. -/
structure Bounds (s : Setting) where
  origins : List Origin
  levels : Nat
  files : ∀ {path es}, contents s path = some es →
    .file path ∈ origins ∧ Within origins levels es

namespace Bounds

variable {s : Setting} (b : Bounds s)

/-- The components of the table keep to the bounds. -/
def Stocked (components : Table Text Element) : Prop :=
  ∀ entry ∈ components.entries,
    .component entry.1 ∈ b.origins ∧ Within b.origins b.levels entry.2.children

private theorem Stocked.registered {b : Bounds s} {d : Desk} {e : Element}
    (h : b.Stocked d.components) (he : Within b.origins b.levels [e]) :
    b.Stocked (registered (known e) d).components := by
  intro entry hentry
  rcases Table.mem_put hentry with hentry | rfl
  · exact h entry hentry
  · exact ⟨he.name, he.children⟩

/-- The chain has no repetitions, and there is enough reach for the element and for all that may
still join the chain. -/
structure Fits (reach : Nat) (t : Traced) : Prop where
  nodup : t.chain.Nodup
  subset : t.chain ⊆ b.origins
  within : Within b.origins b.levels [t.element]
  spare : height t.element.children + (b.origins.length - t.chain.length) * (b.levels + 1) < reach

/-- The reach was enough, and the table keeps to the bounds. -/
def Suffices : EStateM.Result Halt Desk Crawled → Prop
  | .ok _ d => b.Stocked d.components
  | .error halt _ => halt ≠ .fault .unfinished

variable {b}

/-- The children of an element fit within a smaller reach. -/
theorem Fits.inner {reach : Nat} {t : Traced} (h : b.Fits (reach + 1) t) :
    ∀ t' ∈ traced t.chain t.element.children, b.Fits reach t' := by
  intro t' ht'
  obtain ⟨e, he, rfl⟩ := List.mem_map.mp ht'
  have hlower := height_le_iff.mp (Nat.le_refl _) e he
  have hspare := h.spare
  exact {
    nodup := h.nodup
    subset := h.subset
    within := h.within.children.of_mem he
    spare := by dsimp only; omega }

/-- Elements that are put in place by something new fit within a smaller reach. -/
theorem Fits.expanded {reach : Nat} {t : Traced} (h : b.Fits (reach + 1) t) {origin : Origin}
    (hnew : origin ∉ t.chain) (horigin : origin ∈ b.origins) {es : List Element}
    (hes : Within b.origins b.levels es) :
    ∀ t' ∈ traced (origin :: t.chain) es, b.Fits reach t' := by
  intro t' ht'
  obtain ⟨e, he, rfl⟩ := List.mem_map.mp ht'
  have hnodup := List.nodup_cons.mpr ⟨hnew, h.nodup⟩
  have hsubset := List.cons_subset.mpr ⟨horigin, h.subset⟩
  have hlower := height_le_iff.mp hes.height_le e he
  have hlength := hnodup.length_le_of_subset hsubset
  rw [List.length_cons] at hlength
  -- One more on the chain makes room for a whole tree.
  have hfewer : b.origins.length - t.chain.length =
      b.origins.length - (t.chain.length + 1) + 1 := by omega
  have hspare := h.spare
  rw [hfewer, Nat.succ_mul] at hspare
  exact {
    nodup := hnodup
    subset := hsubset
    within := hes.of_mem he
    spare := by
      rw [List.length_cons]
      dsimp only
      omega }

/-- A visit leads to elements that fit within a smaller reach. -/
theorem Fits.leads {inHead : Bool} {reach : Nat} {t : Traced} {d d₁ : Desk} {v : Visit}
    (h : b.Fits (reach + 1) t) (hd : b.Stocked d.components)
    (hnew : t.reenters d.components = false)
    (hvisit : (visit s inHead t.element).run d = .ok v d₁) :
    (∀ t' ∈ t.leads d.components v, b.Fits reach t') ∧ b.Stocked d₁.components := by
  have hchain {origin : Origin} (horigin : originOf d.components t.element = some origin) :
      origin ∉ t.chain := by
    intro hmem
    rw [Traced.reenters_iff.mpr ⟨origin, hmem, horigin⟩] at hnew
    cases hnew
  rw [Traced.leads, List.forall_mem_append]
  cases visit_eq_ok.mp hvisit with
  | imported himport hread =>
    obtain ⟨path, horigin, hcontents, halike⟩ := exists_originOf_import himport hread d.components
    obtain ⟨hfile, hes⟩ := b.files hcontents
    rw [horigin, halike.components]
    exact ⟨⟨h.expanded (hchain horigin) hfile hes, List.forall_mem_nil _⟩, hd⟩
  | used himport hget =>
    have horigin := originOf_other himport d.components
    rw [hget] at horigin
    obtain ⟨hname, hes⟩ := hd _ (Table.mem_of_find? hget)
    rw [horigin]
    exact ⟨⟨h.expanded (hchain horigin) hname hes, h.inner⟩, hd⟩
  | defined =>
    exact ⟨⟨List.forall_mem_nil _, List.forall_mem_nil _⟩, hd.registered h.within⟩
  | kept himport hget hdefinition hexpand =>
    rw [(expandTag_alike hexpand (.refl d)).1.components]
    exact ⟨⟨List.forall_mem_nil _, h.inner⟩, hd⟩

private theorem Suffices.decided {outcome : EStateM.Result Halt Desk Crawled}
    (h : b.Suffices outcome) :
    Decided outcome := by
  rintro d rfl
  exact h rfl

/-- A checked crawl ends if there is enough reach for every element. -/
theorem exists_ends {inHead : Bool} {reach : Nat} {ts : List Traced} {d : Desk}
    (hts : ∀ t ∈ ts, b.Fits reach t) (hd : b.Stocked d.components) :
    ∃ outcome, Ends s inHead true ts d outcome ∧ b.Suffices outcome := by
  -- The induction on the reach is for what an element leads to, the one on the list for the others.
  induction reach generalizing ts d with
  | zero =>
    cases ts with
    | nil => exact ⟨_, .nil, hd⟩
    | cons t ts => exact absurd (hts t List.mem_cons_self).spare (Nat.not_lt_zero _)
  | succ reach ih =>
    induction ts generalizing d with
    | nil => exact ⟨_, .nil, hd⟩
    | cons t ts ihts =>
      obtain ⟨ht, hts⟩ := List.forall_mem_cons.mp hts
      cases hcycle : t.reenters d.components with
      | true => exact ⟨_, .cycle hcycle, nofun⟩
      | false =>
        cases hvisit : (visit s inHead t.element).run d with
        | error fault d₁ =>
          refine ⟨_, .fault hcycle hvisit, ?_⟩
          rintro ⟨⟩
          exact finishes_visit s inHead t.element d d₁ hvisit
        | ok v d₁ =>
          obtain ⟨hleads, hd₁⟩ := ht.leads hd hcycle hvisit
          obtain ⟨outcome, hends, hsuffices⟩ := ih hleads hd₁
          cases outcome with
          | error halt d₂ => exact ⟨_, .inner hcycle hvisit hends, hsuffices⟩
          | ok inner d₂ =>
            obtain ⟨outcome, hothers, hsuffices⟩ := ihts hts hsuffices
            refine ⟨_, .others hcycle hvisit hends hothers, ?_⟩
            cases outcome with
            | error halt d₃ => exact hsuffices
            | ok others d₃ => exact hsuffices

end Bounds

/-- There are bounds for finitely many files, some elements and a table of components. -/
theorem exists_bounds {s : Setting} {files : List Text}
    (hfiles : ∀ path ∉ files, ∃ fault, s.read path = .error fault) (es : List Element)
    (components : Table Text Element) :
    ∃ b : Bounds s, Within b.origins b.levels es ∧ b.Stocked components := by
  let all := es ++ files.flatMap (fun path => (contents s path).getD []) ++
    components.entries.flatMap (·.2.children)
  let origins := files.map Origin.file ++ (tags all).map (fun t => .component (canonical t).name) ++
    components.entries.map (fun entry => .component entry.1)
  have hall : Within origins (height all) all := by
    refine ⟨Nat.le_refl _, fun t ht => ?_⟩
    exact List.mem_append_left _ (List.mem_append_right _ (List.mem_map.mpr ⟨t, ht, rfl⟩))
  refine ⟨⟨origins, height all, ?_⟩, hall.of_subset ?_, ?_⟩
  · intro path es' hcontents
    have hpath : path ∈ files := by
      by_contra hpath
      obtain ⟨fault, hread⟩ := hfiles path hpath
      rw [contents, hread] at hcontents
      cases hcontents
    refine ⟨?_, hall.of_subset fun e he => ?_⟩
    · exact List.mem_append_left _ (List.mem_append_left _ (List.mem_map.mpr ⟨path, hpath, rfl⟩))
    · refine List.mem_append_left _ (List.mem_append_right _ ?_)
      refine List.mem_flatMap.mpr ⟨path, hpath, ?_⟩
      rw [hcontents]
      exact he
  · intro e he
    exact List.mem_append_left _ (List.mem_append_left _ he)
  · intro entry hentry
    refine ⟨List.mem_append_right _ (List.mem_map.mpr ⟨entry, hentry, rfl⟩), hall.of_subset ?_⟩
    intro e he
    exact List.mem_append_right _ (List.mem_flatMap.mpr ⟨entry, hentry, he⟩)

/-! ### A cycle of imports is endless -/

/-- No element is marked as a definition. -/
def Unmarked (es : List Element) : Prop := ∀ t ∈ tags es, isDefinition t = false

instance (es : List Element) : Decidable (Unmarked es) :=
  inferInstanceAs (Decidable (∀ t ∈ tags es, isDefinition t = false))

private theorem Unmarked.of_mem {es : List Element} (h : Unmarked es) {e : Element} (he : e ∈ es) :
    Unmarked [e] := fun t ht => h t (mem_tags_of_mem he ht)

private theorem Unmarked.children {e : Element} (h : Unmarked [e]) : Unmarked e.children :=
  fun t ht => h t (mem_tags_of_children ht)

/-- Working through the elements is unfinished within the given reach, with no limit to the room. -/
def RunsOut (s : Setting) (inHead : Bool) (reach : Nat) (es : List Element) (d : Desk) : Prop :=
  ∃ d', (crawl s inHead reach none es).run d = .error .unfinished d'

section

variable {s : Setting} {inHead : Bool}

private theorem runsOut_zero (e : Element) (es : List Element) (d : Desk) :
    RunsOut s inHead 0 (e :: es) d := ⟨d, rfl⟩

private theorem runsOut_of_below {reach : Nat} {e : Element} {es : List Element} {d d₁ : Desk}
    {v : Visit} (hvisit : (visit s inHead e).run d = .ok v d₁)
    (h : RunsOut s inHead reach (v.expanded ++ v.inner) d₁) :
    RunsOut s inHead (reach + 1) (e :: es) d := by
  obtain ⟨d', h⟩ := h
  refine ⟨d', ?_⟩
  rw [crawl_cons_run]
  simp only [hvisit, h]

private theorem runsOut_of_others {reach : Nat} {e : Element} {es : List Element} {d d₁ d₂ : Desk}
    {v : Visit} {inner : Crawled} (hvisit : (visit s inHead e).run d = .ok v d₁)
    (hbelow : (crawl s inHead reach none (v.expanded ++ v.inner)).run d₁ = .ok inner d₂)
    (h : RunsOut s inHead (reach + 1) es d₂) : RunsOut s inHead (reach + 1) (e :: es) d := by
  obtain ⟨d', h⟩ := h
  refine ⟨d', ?_⟩
  rw [crawl_cons_run]
  simp only [hvisit, hbelow, h]

/-- If some elements come to a result without a bound, then within any reach they come to that
result or run out of it. -/
theorem Ends.runsOut_or {ts : List Traced} {d d' : Desk} {r : Crawled}
    (h : Ends s inHead false ts d (.ok r d')) (reach : Nat) :
    RunsOut s inHead reach (ts.map (·.element)) d ∨
      (crawl s inHead reach none (ts.map (·.element))).run d = .ok r d' := by
  have hfollow := @follow_unchecked s inHead reach ts d
  have hsame (hdecided : Decided ((follow s inHead false reach ts).run d)) :
      halted ((crawl s inHead reach none (ts.map (·.element))).run d) = .ok r d' :=
    hfollow.symm.trans ((ends_of_follow hdecided).unique h)
  rw [hfollow] at hsame
  cases hrun : (crawl s inHead reach none (ts.map (·.element))).run d with
  | ok r₁ d₁ =>
    rw [hrun] at hsame
    cases hsame fun _ h => (by cases h)
    exact Or.inr rfl
  | error fault d₁ =>
    refine Or.inl ⟨d₁, hrun.trans ?_⟩
    rw [hrun] at hsame
    by_contra hfault
    cases hsame fun _ h => (by cases h; exact hfault rfl)

/-- Elements without components and definitions. -/
structure Bare (ts : List Traced) (d : Desk) : Prop where
  components : d.components = {}
  unmarked : ∀ t ∈ ts, Unmarked [t.element]

private theorem Bare.others {t : Traced} {ts : List Traced} {d d₂ : Desk} (h : Bare (t :: ts) d)
    (halike : Alike d d₂) : Bare ts d₂ where
  components := halike.components.trans h.components
  unmarked := fun t ht => h.unmarked t (List.mem_cons_of_mem _ ht)

/-- All that is on the chains of the elements are files, and working through one of these runs out
of all smaller reaches, on every desk that is alike. -/
def ChainsRunOut (s : Setting) (inHead : Bool) (reach : Nat) (ts : List Traced) (d : Desk) : Prop :=
  ∀ t ∈ ts, ∀ origin ∈ t.chain, ∃ path es, origin = .file path ∧ contents s path = some es ∧
    ∀ reach' < reach, ∀ d', Alike d d' → RunsOut s inHead reach' es d'

private theorem ChainsRunOut.others {reach : Nat} {t : Traced} {ts : List Traced} {d d₂ : Desk}
    (h : ChainsRunOut s inHead reach (t :: ts) d) (halike : Alike d d₂) :
    ChainsRunOut s inHead reach ts d₂ := by
  intro t' ht' origin hmem
  obtain ⟨path, es, hpath, hcontents, hout⟩ := h t' (List.mem_cons_of_mem t ht') origin hmem
  exact ⟨path, es, hpath, hcontents, fun n hn d' hd' => hout n hn d' (halike.trans hd')⟩

/-- What joins the chains has to run out of the smaller reaches as well. -/
theorem ChainsRunOut.leads {reach reach' : Nat} {t : Traced} {ts : List Traced} {d d₁ : Desk}
    {v : Visit} (h : ChainsRunOut s inHead reach (t :: ts) d) (halike : Alike d d₁)
    (hreach : reach' ≤ reach)
    (horigin : ∀ origin, originOf d.components t.element = some origin → ∃ path,
      origin = .file path ∧ contents s path = some (v.expanded ++ v.inner))
    (hout : ∀ n < reach', ∀ d', Alike d₁ d' → RunsOut s inHead n (v.expanded ++ v.inner) d') :
    ChainsRunOut s inHead reach' (t.leads d.components v) d₁ := by
  intro t' ht' origin hmem
  rcases Traced.mem_chain_leads ht' hmem with hnew | hold
  · obtain ⟨path, hpath, hcontents⟩ := horigin origin hnew
    exact ⟨path, _, hpath, hcontents, hout⟩
  · obtain ⟨path, es, hpath, hcontents, hout⟩ := h t List.mem_cons_self origin hold
    refine ⟨path, es, hpath, hcontents, fun n hn d' hd' => hout n ?_ d' (halike.trans hd')⟩
    omega

variable (hfiles : ∀ {path es}, contents s path = some es → Unmarked es)
include hfiles

/-- Without components and definitions, a visit leaves a desk that is alike and leads to elements
without definitions. If it is the visit of an import, these are the elements of the file. -/
theorem Bare.visit {t : Traced} {ts : List Traced} {d d₁ : Desk} {v : Visit}
    (h : Bare (t :: ts) d) (hvisit : (visit s inHead t.element).run d = .ok v d₁) :
    Alike d d₁ ∧ Bare (t.leads d.components v) d₁ ∧
      ∀ origin, originOf d.components t.element = some origin → ∃ path,
        origin = .file path ∧ contents s path = some (v.expanded ++ v.inner) := by
  have ht := h.unmarked t List.mem_cons_self
  have hleads (chain : List Origin) {es : List Element} (hes : Unmarked es) :
      ∀ t ∈ traced chain es, Unmarked [t.element] := by
    intro t ht
    obtain ⟨e, he, rfl⟩ := List.mem_map.mp ht
    exact hes.of_mem he
  have hnil : Unmarked [] := fun _ h => by cases h
  have hjoin {es es' : List Element} (hes : Unmarked es) (hes' : Unmarked es') :
      ∀ t' ∈ t.leads d.components { expanded := es, inner := es' }, Unmarked [t'.element] :=
    List.forall_mem_append.mpr ⟨hleads _ hes, hleads _ hes'⟩
  cases visit_eq_ok.mp hvisit with
  | imported himport hread =>
    obtain ⟨path, horigin, hcontents, halike⟩ := exists_originOf_import himport hread d.components
    refine ⟨halike, ⟨halike.components.trans h.components, hjoin (hfiles hcontents) hnil⟩, ?_⟩
    intro origin horigin'
    cases horigin.symm.trans horigin'
    exact ⟨path, rfl, by rw [List.append_nil]; exact hcontents⟩
  | used himport hget =>
    rw [h.components] at hget
    cases hget
  | defined himport hget hdefinition =>
    rw [known, isDefinition_canonical, ht _ (tag_mem_tags _)] at hdefinition
    cases hdefinition
  | kept himport hget hdefinition hexpand =>
    have halike := (expandTag_alike hexpand (.refl d)).1
    refine ⟨halike, ⟨halike.components.trans h.components, hjoin hnil ht.children⟩, ?_⟩
    intro origin horigin
    rw [originOf_other himport, hget] at horigin
    cases horigin

/-- Without components and definitions, elements that come to a result in a checked crawl come to it
without the check, on every desk that is alike, and leave such a desk. -/
theorem Ends.alike {ts : List Traced} {d : Desk} {outcome : EStateM.Result Halt Desk Crawled}
    (h : Ends s inHead true ts d outcome) :
    Bare ts d → ∀ r d₂, outcome = .ok r d₂ → Alike d d₂ ∧
      ∀ d', Alike d d' → ∃ d₂', Ends s inHead false ts d' (.ok r d₂') ∧ Alike d d₂' := by
  induction h with
  | nil =>
    intro _ r d₂ h
    cases h
    exact ⟨.refl _, fun d' halike => ⟨d', .nil, halike⟩⟩
  | cycle | fault | inner =>
    intro _ r d₂ h
    cases h
  | @others t ts d d₁ d₂ v inner outcome hcycle hvisit hbelow hothers ih ihothers =>
    intro hbare r d₃ h
    obtain ⟨halike₁, hleads, -⟩ := hbare.visit hfiles hvisit
    obtain ⟨halike₂, hbelow'⟩ := ih hleads inner d₂ rfl
    have halike := halike₁.trans halike₂
    cases outcome with
    | error halt d₄ => cases h
    | ok others d₄ =>
      cases h
      obtain ⟨halike₃, hothers'⟩ := ihothers (hbare.others halike) others d₃ rfl
      refine ⟨halike.trans halike₃, fun d' hd' => ?_⟩
      obtain ⟨d₁', hvisit', hd₁'⟩ := visit_alike hvisit hd'
      obtain ⟨d₂', hends, hd₂'⟩ := hbelow' d₁' hd₁'
      obtain ⟨d₃', hends', hd₃'⟩ := hothers' d₂' (halike₂.symm.trans hd₂')
      rw [← hd'.components] at hends
      exact ⟨d₃', .others rfl hvisit' hends hends', halike.trans hd₃'⟩

/-- If a checked crawl meets a cycle and the files on the chains run out of every smaller reach, the
crawl runs out of the reach. -/
theorem Ends.runsOut {ts : List Traced} {d : Desk} {outcome : EStateM.Result Halt Desk Crawled}
    (h : Ends s inHead true ts d outcome) :
    Bare ts d → IsCycle outcome → ∀ reach d', Alike d d' → ChainsRunOut s inHead reach ts d →
      RunsOut s inHead reach (ts.map (·.element)) d' := by
  -- By the way in which the cycle was met. Desks differ from one round to the next, in what was
  -- read and logged, so the statement is about all that are alike.
  induction h with
  | nil =>
    rintro _ ⟨_, h⟩
    cases h
  | fault =>
    rintro _ ⟨_, h⟩
    cases h
  | @cycle t ts d hcycle =>
    intro _ _ reach d' halike hchains
    cases reach with
    | zero => exact runsOut_zero ..
    | succ reach =>
      obtain ⟨origin, hmem, horigin⟩ := Traced.reenters_iff.mp hcycle
      obtain ⟨path, es, rfl, hcontents, hout⟩ := hchains t List.mem_cons_self origin hmem
      obtain ⟨d₁', hvisit, hd₁'⟩ := exists_visit_import horigin hcontents inHead d'
      refine runsOut_of_below hvisit ?_
      rw [List.append_nil]
      exact hout reach (Nat.lt_succ_self reach) d₁' (halike.trans hd₁')
  | @inner t ts d d₁ d₂ v halt hcycle hvisit hbelow ih =>
    intro hbare hhalt reach d' halike hchains
    cases reach with
    | zero => exact runsOut_zero ..
    | succ reach =>
      obtain ⟨halike₁, hleads, horigin⟩ := hbare.visit hfiles hvisit
      obtain ⟨d₁', hvisit', hd₁'⟩ := visit_alike hvisit halike
      -- A file that is imported here is on the chains below, so its smaller reaches come first.
      have hall : ∀ reach' ≤ reach, ∀ d', Alike d₁ d' →
          RunsOut s inHead reach' (v.expanded ++ v.inner) d' := by
        intro reach'
        induction reach' using Nat.strongRecOn with
        | ind reach' ihreach =>
          intro hle d' hd'
          rw [← t.elements_leads d.components v]
          refine ih hleads hhalt reach' d' hd' ?_
          exact hchains.leads halike₁ (Nat.le_succ_of_le hle) horigin
            fun n hn => ihreach n hn (Nat.le_of_lt (Nat.lt_of_lt_of_le hn hle))
      exact runsOut_of_below hvisit' (hall reach (Nat.le_refl reach) d₁' hd₁')
  | @others t ts d d₁ d₂ v inner outcome hcycle hvisit hbelow hothers ih ihothers =>
    intro hbare hafter reach d' halike hchains
    cases reach with
    | zero => exact runsOut_zero ..
    | succ reach =>
      obtain ⟨halike₁, hleads, -⟩ := hbare.visit hfiles hvisit
      obtain ⟨halike₂, hbelow'⟩ := hbelow.alike hfiles hleads inner d₂ rfl
      obtain ⟨d₁', hvisit', hd₁'⟩ := visit_alike hvisit halike
      obtain ⟨d₂', hends, hd₂'⟩ := hbelow' d₁' hd₁'
      have halike' := halike₁.trans halike₂
      have hout := hends.runsOut_or reach
      rw [Traced.elements_leads] at hout
      rcases hout with hout | hrun
      · exact runsOut_of_below hvisit' hout
      · refine runsOut_of_others hvisit' hrun ?_
        exact ihothers (hbare.others halike') (isCycle_after.mp hafter) (reach + 1) d₂'
          (halike₂.symm.trans hd₂') (hchains.others halike')

end

private theorem elements_traced (chain : List Origin) (es : List Element) :
    (traced chain es).map (·.element) = es := by
  rw [traced, List.map_map]
  exact List.map_id es

/-- With finitely many files, a checked crawl ends. -/
theorem exists_ends_traced {s : Setting} {files : List Text}
    (hfiles : ∀ path ∉ files, ∃ fault, s.read path = .error fault) (inHead : Bool)
    (es : List Element) (d : Desk) :
    ∃ outcome, Ends s inHead true (traced [] es) d outcome ∧ Decided outcome := by
  obtain ⟨b, hes, hcomponents⟩ := exists_bounds hfiles es d.components
  have hfits : ∀ t ∈ traced [] es, b.Fits (b.levels + b.origins.length * (b.levels + 1)) t := by
    intro t ht
    obtain ⟨e, he, rfl⟩ := List.mem_map.mp ht
    have hlower := height_le_iff.mp hes.height_le e he
    exact ⟨List.nodup_nil, List.nil_subset _, hes.of_mem he, Nat.add_lt_add_right hlower _⟩
  obtain ⟨outcome, hends, hsuffices⟩ := Bounds.exists_ends hfits hcomponents
  exact ⟨outcome, hends, hsuffices.decided⟩

/-- A document is endless only if something leads back to itself. With finitely many files and no
limit to the room, the checked crawl ends in one way within every reach from some reach on. If it
meets no cycle, the crawl ends in the same way, with the same result or fault and the same desk. If
it meets a cycle, and neither the table nor the elements nor the files hold a component, the crawl
is unfinished within every reach. -/
theorem endless_only_by_reentrance {s : Setting} {files : List Text}
    (hfiles : ∀ path ∉ files, ∃ fault, s.read path = .error fault) (inHead : Bool)
    (es : List Element) (d : Desk) :
    (∃ outcome least, Decided outcome ∧
      ∀ reach ≥ least, (checkedCrawl s inHead reach es).run d = outcome) ∧
    (∀ reach outcome, (checkedCrawl s inHead reach es).run d = outcome → Decided outcome →
      ¬ IsCycle outcome →
        ∃ least, ∀ reach ≥ least, halted ((crawl s inHead reach none es).run d) = outcome) ∧
    (d.components = {} → Unmarked es → (∀ path es, contents s path = some es → Unmarked es) →
      ∀ reach, IsCycle ((checkedCrawl s inHead reach es).run d) →
        ∀ reach, ∃ d', (crawl s inHead reach none es).run d = .error .unfinished d') := by
  refine ⟨?_, ?_, ?_⟩
  · obtain ⟨outcome, hends, hdecided⟩ := exists_ends_traced hfiles inHead es d
    obtain ⟨least, hleast⟩ := hends.exists_follow
    exact ⟨outcome, least, hdecided, hleast⟩
  · rintro reach outcome hrun hdecided hcycle
    rw [checkedCrawl] at hrun
    rw [← hrun] at hdecided hcycle
    obtain ⟨least, hleast⟩ := ((ends_of_follow hdecided).unchecked hcycle).exists_follow
    refine ⟨least, fun reach' hreach => ?_⟩
    rw [← hrun, ← hleast reach' hreach, follow_unchecked, elements_traced]
  · intro hempty hes hcontents reach hcycle reach'
    obtain ⟨d₁, hrun⟩ := hcycle
    have hdecided : Decided ((checkedCrawl s inHead reach es).run d) := by
      rw [hrun]
      intro d₂ h
      cases h
    have hbare : Bare (traced [] es) d := by
      refine ⟨hempty, fun t ht => ?_⟩
      obtain ⟨e, he, rfl⟩ := List.mem_map.mp ht
      exact hes.of_mem he
    have hout := (ends_of_follow hdecided).runsOut (fun h => hcontents _ _ h) hbare ⟨d₁, hrun⟩
      reach' d (.refl d) fun t ht origin hmem => by
        obtain ⟨e, -, rfl⟩ := List.mem_map.mp ht
        cases hmem
    rw [elements_traced] at hout
    exact hout

/-- A page that imports the first of two files which import each other. -/
def mutualPage : List Element :=
  [{ tag := { name := "@import", file := "index.spl", text := some "a.spl".toList } }]

/-- A store that holds these two files; there is a script on the way round. -/
def mutualSetting : Setting where
  options := { file := "index.spl" }
  read := fun path =>
    if path = "a.spl" then .ok "script f()\n@import b.spl\n"
    else if path = "b.spl" then .ok "ul\n\tli\n\t\t@import a.spl\n"
    else .error (.unavailable path)

private theorem mutualSetting_read {path : Text} (h : path ∉ ["a.spl".toList, "b.spl".toList]) :
    mutualSetting.read path = .error (.unavailable path) := by
  obtain ⟨ha, hb⟩ := not_or.mp (mt List.mem_cons.mpr h)
  exact (if_neg ha).trans (if_neg (mt List.mem_singleton.mpr hb))

private theorem unmarked_mutualSetting {path : Text} {es : List Element}
    (h : contents mutualSetting path = some es) : Unmarked es := by
  by_cases hpath : path ∈ ["a.spl".toList, "b.spl".toList]
  · have hall : ∀ path ∈ ["a.spl".toList, "b.spl".toList], ∀ es ∈ contents mutualSetting path,
        Unmarked es := by
      decide +kernel
    exact hall path hpath es h
  · rw [contents, mutualSetting_read hpath] at h
    cases h

/-- Two files that import each other: the checked crawl meets a cycle, and the crawl is never
finished. -/
theorem endless_only_by_reentrance_at_mutual_imports :
    (∀ path ∉ ["a.spl".toList, "b.spl".toList], ∃ fault, mutualSetting.read path = .error fault) ∧
      plainDesk.components = {} ∧ Unmarked mutualPage ∧
      (∀ path es, contents mutualSetting path = some es → Unmarked es) ∧
      IsCycle ((checkedCrawl mutualSetting false 6 mutualPage).run plainDesk) ∧
      ∀ reach, ∃ d', (crawl mutualSetting false reach none mutualPage).run plainDesk =
        .error .unfinished d' := by
  have hfiles : ∀ path ∉ ["a.spl".toList, "b.spl".toList],
      ∃ fault, mutualSetting.read path = .error fault :=
    fun path hpath => ⟨_, mutualSetting_read hpath⟩
  have hpage : Unmarked mutualPage := by decide
  have hcycle : IsCycle ((checkedCrawl mutualSetting false 6 mutualPage).run plainDesk) := by
    decide +kernel
  obtain ⟨-, -, hendless⟩ := endless_only_by_reentrance hfiles false mutualPage plainDesk
  exact ⟨hfiles, rfl, hpage, fun _ _ => unmarked_mutualSetting, hcycle,
    hendless rfl hpage (fun _ _ => unmarked_mutualSetting) 6 hcycle⟩

end OutlinePage.Page
