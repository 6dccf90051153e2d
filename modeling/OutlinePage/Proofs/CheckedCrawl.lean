import OutlinePage.Proofs.Crawling
import OutlinePage.Proofs.ScriptAnswers

/-!
# Working through elements with an eye on cycles

Imports and uses of components put other elements in their place, and those may lead back to where
they came from. Here every element carries the chain of files and components that are being expanded
around it, and the checked crawl stops at an element that names one of its own chain. Apart from
that it does the same as the crawl: a checked crawl that ends without a cycle tells how the crawl
ends.
-/

namespace OutlinePage.Page

/-- What elements are put in place by: a file that is imported, or a component that is used. -/
inductive Origin where
  | file (path : Text)
  | component (name : Text)
deriving DecidableEq, Repr

/-- The file that the element imports, or the component that it uses if it is one of these. -/
def originOf (components : Table Text Element) (e : Element) : Option Origin :=
  if Vocabulary.importTags.contains e.name then
    let named := Text.strip (e.tag.text.getD [])
    if named.isEmpty then none else some (.file (importPath e.tag named))
  else if components.contains (known e).name then some (.component (known e).name)
  else none

/-- An element with the chain of what is being expanded around it, the innermost first. -/
structure Traced where
  chain : List Origin
  element : Element

/-- The elements, each with the same chain. -/
def traced (chain : List Origin) (es : List Element) : List Traced := es.map fun e => ⟨chain, e⟩

/-- Does the element name something of its own chain? -/
def Traced.reenters (t : Traced) (components : Table Text Element) : Bool :=
  (originOf components t.element).any t.chain.contains

/-- An element reenters if what it leads to is something that has led to it. -/
theorem Traced.reenters_iff {t : Traced} {components : Table Text Element} :
    t.reenters components = true ↔
      ∃ origin ∈ t.chain, originOf components t.element = some origin := by
  rw [Traced.reenters]
  cases originOf components t.element with
  | none => simp
  | some origin => simp

/-- Why a checked crawl was broken off. -/
inductive Halt where
  /-- An element names something of its own chain. -/
  | cycle
  | fault (fault : Fault)
deriving DecidableEq, Repr

/-! ### One element without what it leads to -/

/-- What an element leads to, and what is made of the result. -/
structure Visit where
  /-- The elements of the file or of the template. -/
  expanded : List Element := []
  /-- The children of the element itself. -/
  inner : List Element := []
  finish : Crawled → Crawled := id

/-- Works through one element, but not through those that it leads to. -/
def visit (s : Setting) (inHead : Bool) (e : Element) : Work Visit := do
  if Vocabulary.importTags.contains e.name then
    return { expanded := ← importElements s e.tag }
  else
    match ← lookUp (known e).name with
    | some template =>
      return {
        expanded := template.children
        inner := e.children
        finish := fun inner => { inner with
          elements := [{ instantiate template (known e) with children := inner.elements }] } }
    | none =>
      if isDefinition (known e).tag then
        register (known e)
        return { finish := fun _ => {} }
      else
        let (tag, scripts) ← expandTag s (known e).tag
        return { inner := e.children, finish := placed inHead tag scripts }

/-- A visit to an import finds the elements of the file. -/
theorem visit_import {s : Setting} {inHead : Bool} {e : Element}
    (himport : Vocabulary.importTags.contains e.name = true) :
    visit s inHead e = do
      let es ← importElements s e.tag
      return { expanded := es } := by
  rw [visit, if_pos himport]

/-- A visit to any other element: the table of components and the tag decide what is done. -/
theorem visit_run {s : Setting} {inHead : Bool} {e : Element} {d : Desk}
    (himport : Vocabulary.importTags.contains e.name = false) :
    (visit s inHead e).run d =
      match d.components.get? (known e).name with
      | some template => .ok {
          expanded := template.children
          inner := e.children
          finish := fun inner => { inner with
            elements := [{ instantiate template (known e) with children := inner.elements }] } } d
      | none =>
        if isDefinition (known e).tag then .ok { finish := fun _ => {} } (registered (known e) d)
        else (do
          let (tag, scripts) ← expandTag s (known e).tag
          return { inner := e.children, finish := placed inHead tag scripts } :
          Work Visit).run d := by
  rw [visit, himport, if_neg Bool.false_ne_true]
  change (match d.components.get? (known e).name with
    | some _ => _
    | none => _ : Work Visit).run d = _
  cases d.components.get? (known e).name with
  | some template => rfl
  | none =>
    change (if isDefinition (known e).tag = true then _ else _ : Work Visit).run d = _
    cases isDefinition (known e).tag <;> rfl

/-! ### What a visit finds -/

/-- The elements of a file, if they can be read. -/
def contents (s : Setting) (path : Text) : Option (List Element) :=
  match s.read path with
  | .error _ => none
  | .ok source => (Outline.read source (s.options.forImport path)).toOption

/-- The same components are registered, and scripts are answered in the same way. -/
structure Alike (d d' : Desk) : Prop where
  components : d'.components = d.components
  answer : d'.scripts.answer = d.scripts.answer

/-- A desk is like itself. -/
theorem Alike.refl (d : Desk) : Alike d d := ⟨rfl, rfl⟩

/-- Desks that are like a third one are alike. -/
theorem Alike.trans {d d' d'' : Desk} (h : Alike d d') (h' : Alike d' d'') : Alike d d'' :=
  ⟨h'.components.trans h.components, h'.answer.trans h.answer⟩

/-- Of two desks that are alike, each is like the other. -/
theorem Alike.symm {d d' : Desk} (h : Alike d d') : Alike d' d :=
  ⟨h.components.symm, h.answer.symm⟩

private theorem originOf_import {e : Element}
    (himport : Vocabulary.importTags.contains e.name = true) (components : Table Text Element) :
    originOf components e = if (Text.strip (e.tag.text.getD [])).isEmpty then none
      else some (.file (importPath e.tag (Text.strip (e.tag.text.getD [])))) :=
  if_pos himport

/-- An element that is no import leads somewhere only if it is the use of a component. -/
theorem originOf_other {e : Element} (himport : Vocabulary.importTags.contains e.name = false)
    (components : Table Text Element) :
    originOf components e =
      if (components.get? (known e).name).isSome then some (.component (known e).name)
      else none := by
  rw [originOf, himport, if_neg Bool.false_ne_true, Table.contains]

/-- What an import gives are the elements of the file that it names. -/
theorem importElements_contents {s : Setting} {t : Tag} {es : List Element} {d d' : Desk}
    (h : (importElements s t).run d = .ok es d') :
    (Text.strip (t.text.getD [])).isEmpty = false ∧
      contents s (importPath t (Text.strip (t.text.getD []))) = some es ∧ Alike d d' := by
  obtain ⟨himported, hcomponents, hscripts⟩ := importElements_eq_ok h
  rw [imported] at himported
  cases hnamed : (Text.strip (t.text.getD [])).isEmpty with
  | true =>
    rw [if_pos hnamed] at himported
    cases himported
  | false =>
    simp only [hnamed, Bool.false_eq_true, if_false] at himported
    rw [contents]
    cases hread : s.read (importPath t (Text.strip (t.text.getD []))) with
    | error fault =>
      rw [hread] at himported
      cases himported
    | ok source =>
      rw [hread] at himported
      dsimp only at himported
      cases houtline : Outline.read source
          (s.options.forImport (importPath t (Text.strip (t.text.getD [])))) with
      | error e =>
        rw [houtline] at himported
        cases himported
      | ok found =>
        rw [houtline] at himported
        cases himported
        exact ⟨rfl, congrArg Except.toOption houtline, hcomponents, congrArg _ hscripts⟩

/-- An import of a file whose elements can be read succeeds. -/
theorem exists_importElements {s : Setting} {t : Tag} {es : List Element}
    (hnamed : (Text.strip (t.text.getD [])).isEmpty = false)
    (hcontents : contents s (importPath t (Text.strip (t.text.getD []))) = some es) (d : Desk) :
    ∃ d', (importElements s t).run d = .ok es d' := by
  rw [contents] at hcontents
  split at hcontents
  · cases hcontents
  · next source hread =>
    have houtline := toOption_eq_some hcontents
    rw [importElements, hnamed, if_neg Bool.false_ne_true]
    simp only [run_bind_eq_ok, fetch, readOutline]
    exact ⟨_, source, _, ⟨(), _, rfl, by rw [hread]; rfl⟩, (), _, rfl, (), _, rfl,
      by rw [houtline]; rfl⟩

/-- Writing out the shorthands of a tag comes to the same on a desk that is alike. -/
theorem expandTag_alike {s : Setting} {t : Tag} {a : Tag × List Text} {d d₁ d' : Desk}
    (h : (expandTag s t).run d = .ok a d₁) (halike : Alike d d') :
    Alike d d₁ ∧ ∃ d₁', (expandTag s t).run d' = .ok a d₁' ∧ Alike d d₁' := by
  rw [expandTag_eq] at h ⊢
  cases hinline : inlineScript t with
  | none =>
    rw [hinline] at h
    obtain ⟨rfl, rfl⟩ := run_pure_eq_ok.mp h
    exact ⟨.refl d₁, d', rfl, halike⟩
  | some source =>
    rw [hinline] at h
    obtain ⟨code, d₂, hcompile, hret⟩ := run_bind_eq_ok.mp h
    obtain ⟨rfl, rfl⟩ := run_pure_eq_ok.mp hret
    obtain ⟨service, log, hservice, rfl⟩ := compileInline_eq_ok.mp hcompile
    have hanswer : d'.scripts.answer (jobOf s.options t source) = .ok code := by
      rw [halike.answer]
      exact congrArg Prod.fst hservice
    rcases hservice' : d'.scripts.compile (jobOf s.options t source) with ⟨result, service', log'⟩
    obtain rfl : result = .ok code := (congrArg Prod.fst hservice').symm.trans hanswer
    have hcompile' := compileInline_eq_ok.mpr ⟨service', log', hservice', rfl⟩
    exact ⟨⟨rfl, Script.answer_of_compile_ok hservice⟩, _,
      run_bind_eq_ok.mpr ⟨code, _, hcompile', rfl⟩,
      halike.trans ⟨rfl, Script.answer_of_compile_ok hservice'⟩⟩

/-- The ways in which a visit succeeds. -/
inductive Visits (s : Setting) (inHead : Bool) (e : Element) (d : Desk) : Visit → Desk → Prop where
  | imported {es : List Element} {d₁ : Desk}
      (himport : Vocabulary.importTags.contains e.name = true)
      (hread : (importElements s e.tag).run d = .ok es d₁) :
      Visits s inHead e d { expanded := es } d₁
  | used {template : Element}
      (himport : Vocabulary.importTags.contains e.name = false)
      (hget : d.components.get? (known e).name = some template) :
      Visits s inHead e d {
        expanded := template.children
        inner := e.children
        finish := fun inner => { inner with
          elements := [{ instantiate template (known e) with children := inner.elements }] } } d
  | defined
      (himport : Vocabulary.importTags.contains e.name = false)
      (hget : d.components.get? (known e).name = none)
      (hdefinition : isDefinition (known e).tag = true) :
      Visits s inHead e d { finish := fun _ => {} } (registered (known e) d)
  | kept {tag : Tag} {scripts : List Text} {d₁ : Desk}
      (himport : Vocabulary.importTags.contains e.name = false)
      (hget : d.components.get? (known e).name = none)
      (hdefinition : isDefinition (known e).tag = false)
      (hexpand : (expandTag s (known e).tag).run d = .ok (tag, scripts) d₁) :
      Visits s inHead e d { inner := e.children, finish := placed inHead tag scripts } d₁

/-- A visit comes to a result in the ways of `Visits`, and in no others. -/
theorem visit_eq_ok {s : Setting} {inHead : Bool} {e : Element} {d d₁ : Desk} {v : Visit} :
    (visit s inHead e).run d = .ok v d₁ ↔ Visits s inHead e d v d₁ := by
  constructor
  · intro h
    cases himport : Vocabulary.importTags.contains e.name with
    | true =>
      rw [visit_import himport] at h
      obtain ⟨es, d₂, hread, hret⟩ := run_bind_eq_ok.mp h
      obtain ⟨rfl, rfl⟩ := run_pure_eq_ok.mp hret
      exact .imported himport hread
    | false =>
      rw [visit_run himport] at h
      split at h
      · next template hget =>
        cases h
        exact .used himport hget
      · next hget =>
        split at h
        · next hdefinition =>
          cases h
          exact .defined himport hget hdefinition
        · next hdefinition =>
          obtain ⟨⟨tag, scripts⟩, d₂, hexpand, hret⟩ := run_bind_eq_ok.mp h
          obtain ⟨rfl, rfl⟩ := run_pure_eq_ok.mp hret
          exact .kept himport hget (Bool.eq_false_iff.mpr hdefinition) hexpand
  · intro h
    cases h with
    | imported himport hread =>
      rw [visit_import himport]
      exact run_bind_eq_ok.mpr ⟨_, _, hread, rfl⟩
    | used himport hget => rw [visit_run himport, hget]
    | defined himport hget hdefinition =>
      rw [visit_run himport, hget]
      exact if_pos hdefinition
    | kept himport hget hdefinition hexpand =>
      rw [visit_run himport, hget, hdefinition]
      exact run_bind_eq_ok.mpr ⟨_, _, hexpand, rfl⟩

/-- An import that succeeds names a file, and gives the elements of that file. -/
theorem exists_originOf_import {s : Setting} {e : Element} {es : List Element} {d d₁ : Desk}
    (himport : Vocabulary.importTags.contains e.name = true)
    (hread : (importElements s e.tag).run d = .ok es d₁) (components : Table Text Element) :
    ∃ path, originOf components e = some (.file path) ∧ contents s path = some es ∧ Alike d d₁ := by
  obtain ⟨hnamed, hcontents, halike⟩ := importElements_contents hread
  refine ⟨_, ?_, hcontents, halike⟩
  rw [originOf_import himport, hnamed, if_neg Bool.false_ne_true]

/-- The visit of an element that imports a file finds the elements of the file. -/
theorem exists_visit_import {s : Setting} {e : Element} {components : Table Text Element}
    {path : Text} {es : List Element} (horigin : originOf components e = some (.file path))
    (hcontents : contents s path = some es) (inHead : Bool) (d : Desk) :
    ∃ d₁, (visit s inHead e).run d = .ok { expanded := es } d₁ ∧ Alike d d₁ := by
  cases himport : Vocabulary.importTags.contains e.name with
  | true =>
    rw [originOf_import himport] at horigin
    split at horigin
    · cases horigin
    · next hnamed =>
      cases horigin
      obtain ⟨d₁, hread⟩ := exists_importElements (Bool.eq_false_iff.mpr hnamed) hcontents d
      exact ⟨d₁, visit_eq_ok.mpr (.imported himport hread), (importElements_contents hread).2.2⟩
  | false =>
    rw [originOf_other himport] at horigin
    split at horigin <;> cases horigin

/-- A visit comes to the same on a desk that is alike. -/
theorem visit_alike {s : Setting} {inHead : Bool} {e : Element} {d d₁ d' : Desk} {v : Visit}
    (h : (visit s inHead e).run d = .ok v d₁) (halike : Alike d d') :
    ∃ d₁', (visit s inHead e).run d' = .ok v d₁' ∧ Alike d₁ d₁' := by
  have hget' := congrArg (fun components => components.get? (known e).name) halike.components
  cases visit_eq_ok.mp h with
  | imported himport hread =>
    obtain ⟨path, horigin, hcontents, hd₁⟩ := exists_originOf_import himport hread {}
    obtain ⟨d₁', hvisit, hd₁'⟩ := exists_visit_import horigin hcontents inHead d'
    exact ⟨d₁', hvisit, (hd₁.symm.trans halike).trans hd₁'⟩
  | used himport hget => exact ⟨d', visit_eq_ok.mpr (.used himport (hget'.trans hget)), halike⟩
  | defined himport hget hdefinition =>
    refine ⟨_, visit_eq_ok.mpr (.defined himport (hget'.trans hget) hdefinition), ?_, halike.answer⟩
    exact congrArg (fun components => components.insert (known e).name (template (known e)))
      halike.components
  | kept himport hget hdefinition hexpand =>
    obtain ⟨hd₁, d₁', hexpand', hd₁'⟩ := expandTag_alike hexpand halike
    exact ⟨d₁', visit_eq_ok.mpr (.kept himport (hget'.trans hget) hdefinition hexpand'),
      hd₁.symm.trans hd₁'⟩

/-- Working through an element, with no limit to the room, is a visit and the work on what it leads
to. -/
theorem crawlElement_run_eq_visit {s : Setting} {inHead : Bool}
    {below : Room → List Element → Work Crawled} (hnil : below none [] = pure {}) (e : Element)
    (d : Desk) :
    (crawlElement s inHead below none e).run d =
      (do
        let v ← visit s inHead e
        let inner ← below none (v.expanded ++ v.inner)
        return v.finish inner : Work Crawled).run d := by
  cases himport : Vocabulary.importTags.contains e.name with
  | true =>
    rw [crawlElement, if_pos himport, visit_import himport]
    simp only [bind_assoc, pure_bind, List.append_nil, id_eq, bind_pure]
  | false =>
    rw [crawlElement_run himport, EStateM.run_bind (visit s inHead e), visit_run himport]
    cases d.components.get? (known e).name with
    | some template => rfl
    | none =>
      cases isDefinition (known e).tag with
      | true =>
        change _ = (below none [] >>= fun _ => pure {} : Work Crawled).run (registered (known e) d)
        rw [hnil]
        rfl
      | false =>
        rw [if_neg Bool.false_ne_true, if_neg Bool.false_ne_true, EStateM.run_bind,
          EStateM.run_bind]
        cases (expandTag s (known e).tag).run d <;> rfl

/-- The first element is visited, then come those that it leads to, and then the others. -/
theorem crawl_cons_run (s : Setting) (inHead : Bool) (reach : Nat) (e : Element)
    (es : List Element) (d : Desk) :
    (crawl s inHead (reach + 1) none (e :: es)).run d =
      match (visit s inHead e).run d with
      | .error fault d₁ => .error fault d₁
      | .ok v d₁ =>
        match (crawl s inHead reach none (v.expanded ++ v.inner)).run d₁ with
        | .error fault d₂ => .error fault d₂
        | .ok inner d₂ =>
          match (crawl s inHead (reach + 1) none es).run d₂ with
          | .error fault d₃ => .error fault d₃
          | .ok others d₃ => .ok ((v.finish inner).append others) d₃ := by
  have hnil : crawl s inHead reach none [] = pure {} := by cases reach <;> rfl
  have hroom : (none : Room) ≠ some 0 := nofun
  rw [crawl_succ reach hroom, crawlEach, EStateM.run_bind, crawlElement_run_eq_visit hnil,
    EStateM.run_bind, crawl_succ reach hroom]
  cases (visit s inHead e).run d with
  | error fault d₁ => rfl
  | ok v d₁ =>
    dsimp only
    rw [EStateM.run_bind]
    cases (crawl s inHead reach none (v.expanded ++ v.inner)).run d₁ with
    | error fault d₂ => rfl
    | ok inner d₂ =>
      dsimp only [EStateM.run_pure]
      rw [EStateM.run_bind]
      cases (crawlEach (crawlElement s inHead (crawl s inHead reach) none) es).run d₂ <;> rfl

/-! ### The checked crawl -/

/-- What a traced element leads to: what it puts in place has its origin in front of the chain, and
its own children have its own chain. -/
def Traced.leads (t : Traced) (components : Table Text Element) (v : Visit) : List Traced :=
  traced ((originOf components t.element).toList ++ t.chain) v.expanded ++ traced t.chain v.inner

/-- The outcome of some work as one that a checked crawl may have. -/
def halted {α : Type} : EStateM.Result Fault Desk α → EStateM.Result Halt Desk α
  | .ok a d => .ok a d
  | .error fault d => .error (.fault fault) d

/-- Works through one traced element. `below` works through those that it leads to. -/
def followElement (s : Setting) (inHead checked : Bool)
    (below : List Traced → EStateM Halt Desk Crawled) (t : Traced) : EStateM Halt Desk Crawled := do
  let components := (← get).components
  if checked && t.reenters components then throw .cycle
  else
    let v ← EStateM.adaptExcept .fault (visit s inHead t.element)
    let inner ← below (t.leads components v)
    return v.finish inner

/-- Works through traced elements one after the other. -/
def followEach (one : Traced → EStateM Halt Desk Crawled) : List Traced → EStateM Halt Desk Crawled
  | [] => pure {}
  | t :: ts => do
    let first ← one t
    let others ← followEach one ts
    return first.append others

/-- Works through traced elements, following them `reach` steps at most, and stops at cycles if they
are checked for. -/
def follow (s : Setting) (inHead checked : Bool) : Nat → List Traced → EStateM Halt Desk Crawled
  | _, [] => pure {}
  | 0, _ :: _ => throw (.fault .unfinished)
  | reach + 1, ts => followEach (followElement s inHead checked (follow s inHead checked reach)) ts

/-- Works through elements and stops at an element that names something of its own chain, where the
chains are empty at first. -/
def checkedCrawl (s : Setting) (inHead : Bool) (reach : Nat) (es : List Element) :
    EStateM Halt Desk Crawled :=
  follow s inHead true reach (traced [] es)

/-- The outcome after a first result. -/
def after (first : Crawled) : EStateM.Result Halt Desk Crawled → EStateM.Result Halt Desk Crawled
  | .ok others d => .ok (first.append others) d
  | .error halt d => .error halt d

/-- The outcome is not that the work is unfinished. -/
def Decided {α : Type} (outcome : EStateM.Result Halt Desk α) : Prop :=
  ∀ d, outcome ≠ .error (.fault .unfinished) d

/-- The outcome is that an element names something of its own chain. -/
def IsCycle {α : Type} (outcome : EStateM.Result Halt Desk α) : Prop :=
  ∃ d, outcome = .error .cycle d

instance {α : Type} : (outcome : EStateM.Result Halt Desk α) → Decidable (IsCycle outcome)
  | .ok _ _ => .isFalse fun ⟨_, h⟩ => nomatch h
  | .error (.fault _) _ => .isFalse fun ⟨_, h⟩ => nomatch h
  | .error .cycle d => .isTrue ⟨d, rfl⟩

/-- More elements before a cycle make no difference to it. -/
theorem isCycle_after {first : Crawled} {outcome : EStateM.Result Halt Desk Crawled} :
    IsCycle (after first outcome) ↔ IsCycle outcome := by
  cases outcome with
  | ok others d =>
    constructor
    · rintro ⟨_, h⟩
      cases h
    · rintro ⟨_, h⟩
      cases h
  | error halt d => exact Iff.rfl

section

variable {s : Setting} {inHead checked : Bool}

private theorem follow_nil (reach : Nat) (d : Desk) :
    (follow s inHead checked reach []).run d = .ok {} d := by
  cases reach <;> rfl

private theorem run_adaptExcept {α : Type} (x : Work α) (d : Desk) :
    (EStateM.adaptExcept Halt.fault x).run d = halted (x.run d) := by
  rw [EStateM.run, EStateM.run, EStateM.adaptExcept]
  cases x d <;> rfl

private theorem follow_cons_run (reach : Nat) (t : Traced) (ts : List Traced) (d : Desk) :
    (follow s inHead checked (reach + 1) (t :: ts)).run d =
      if checked && t.reenters d.components then .error .cycle d
      else
        match (visit s inHead t.element).run d with
        | .error fault d₁ => .error (.fault fault) d₁
        | .ok v d₁ =>
          match (follow s inHead checked reach (t.leads d.components v)).run d₁ with
          | .error halt d₂ => .error halt d₂
          | .ok inner d₂ =>
            after (v.finish inner) ((follow s inHead checked (reach + 1) ts).run d₂) := by
  have hts (ts : List Traced) : follow s inHead checked (reach + 1) ts =
      followEach (followElement s inHead checked (follow s inHead checked reach)) ts := by
    cases ts <;> rfl
  rw [hts, followEach, followElement, bind_assoc, EStateM.run_bind, EStateM.run_get, hts]
  dsimp only
  cases checked && t.reenters d.components with
  | true => rfl
  | false =>
    rw [if_neg Bool.false_ne_true, if_neg Bool.false_ne_true, bind_assoc, EStateM.run_bind,
      run_adaptExcept]
    cases (visit s inHead t.element).run d with
    | error fault d₁ => rfl
    | ok v d₁ =>
      dsimp only [halted]
      rw [bind_assoc, EStateM.run_bind]
      cases (follow s inHead checked reach (t.leads d.components v)).run d₁ with
      | error halt d₂ => rfl
      | ok inner d₂ =>
        dsimp only
        rw [pure_bind, EStateM.run_bind]
        cases (followEach (followElement s inHead checked (follow s inHead checked reach)) ts).run
          d₂ <;> rfl

/-! ### Without the check it is the crawl -/

/-- What an element leads to are the elements that it expands to and those inside. -/
theorem Traced.elements_leads (t : Traced) (components : Table Text Element) (v : Visit) :
    (t.leads components v).map (·.element) = v.expanded ++ v.inner := by
  simp only [Traced.leads, traced, List.map_append, List.map_map, Function.comp_def, List.map_id']

/-- Chains grow by what is expanded. -/
theorem Traced.mem_chain_leads {t t' : Traced} {components : Table Text Element} {v : Visit}
    (ht' : t' ∈ t.leads components v) {origin : Origin} (horigin : origin ∈ t'.chain) :
    originOf components t.element = some origin ∨ origin ∈ t.chain := by
  rcases List.mem_append.mp ht' with ht' | ht'
  · obtain ⟨e, -, rfl⟩ := List.mem_map.mp ht'
    exact (List.mem_append.mp horigin).imp_left Option.mem_toList.mp
  · obtain ⟨e, -, rfl⟩ := List.mem_map.mp ht'
    exact Or.inr horigin

/-- A crawl that does not check for cycles is the crawl of the elements. -/
theorem follow_unchecked (reach : Nat) (ts : List Traced) (d : Desk) :
    (follow s inHead false reach ts).run d =
      halted ((crawl s inHead reach none (ts.map (·.element))).run d) := by
  induction reach generalizing ts d with
  | zero => cases ts <;> rfl
  | succ reach ih =>
    induction ts generalizing d with
    | nil => rfl
    | cons t ts ihts =>
      rw [follow_cons_run, Bool.false_and, if_neg Bool.false_ne_true, List.map_cons, crawl_cons_run]
      cases (visit s inHead t.element).run d with
      | error fault d₁ => rfl
      | ok v d₁ =>
        dsimp only
        rw [ih, Traced.elements_leads]
        cases (crawl s inHead reach none (v.expanded ++ v.inner)).run d₁ with
        | error fault d₂ => rfl
        | ok inner d₂ =>
          dsimp only [halted]
          rw [ihts]
          cases (crawl s inHead (reach + 1) none (ts.map (·.element))).run d₂ <;> rfl

/-! ### How it ends, whatever the reach -/

/-- The outcomes of working through traced elements without a bound to the reach. -/
inductive Ends (s : Setting) (inHead checked : Bool) :
    List Traced → Desk → EStateM.Result Halt Desk Crawled → Prop where
  | nil {d : Desk} : Ends s inHead checked [] d (.ok {} d)
  /-- The first element names something of its own chain. -/
  | cycle {t : Traced} {ts : List Traced} {d : Desk}
      (hcycle : (checked && t.reenters d.components) = true) :
      Ends s inHead checked (t :: ts) d (.error .cycle d)
  /-- The visit of the first element fails. -/
  | fault {t : Traced} {ts : List Traced} {d d₁ : Desk} {fault : Fault}
      (hcycle : (checked && t.reenters d.components) = false)
      (hvisit : (visit s inHead t.element).run d = .error fault d₁) :
      Ends s inHead checked (t :: ts) d (.error (.fault fault) d₁)
  /-- Something fails that the first element leads to. -/
  | inner {t : Traced} {ts : List Traced} {d d₁ d₂ : Desk} {v : Visit} {halt : Halt}
      (hcycle : (checked && t.reenters d.components) = false)
      (hvisit : (visit s inHead t.element).run d = .ok v d₁)
      (hbelow : Ends s inHead checked (t.leads d.components v) d₁ (.error halt d₂)) :
      Ends s inHead checked (t :: ts) d (.error halt d₂)
  /-- The other elements decide. -/
  | others {t : Traced} {ts : List Traced} {d d₁ d₂ : Desk} {v : Visit} {inner : Crawled}
      {outcome : EStateM.Result Halt Desk Crawled}
      (hcycle : (checked && t.reenters d.components) = false)
      (hvisit : (visit s inHead t.element).run d = .ok v d₁)
      (hbelow : Ends s inHead checked (t.leads d.components v) d₁ (.ok inner d₂))
      (hothers : Ends s inHead checked ts d₂ outcome) :
      Ends s inHead checked (t :: ts) d (after (v.finish inner) outcome)

/-- An outcome is come to within every reach from some reach on. -/
theorem Ends.exists_follow {ts : List Traced} {d : Desk}
    {outcome : EStateM.Result Halt Desk Crawled} (h : Ends s inHead checked ts d outcome) :
    ∃ least, ∀ reach ≥ least, (follow s inHead checked reach ts).run d = outcome := by
  induction h with
  | nil => exact ⟨0, fun reach _ => follow_nil reach _⟩
  | cycle hcycle =>
    refine ⟨1, fun reach hreach => ?_⟩
    obtain ⟨reach, rfl⟩ := Nat.exists_eq_add_of_le' hreach
    simp only [follow_cons_run, hcycle, if_true]
  | fault hcycle hvisit =>
    refine ⟨1, fun reach hreach => ?_⟩
    obtain ⟨reach, rfl⟩ := Nat.exists_eq_add_of_le' hreach
    simp only [follow_cons_run, hcycle, hvisit, Bool.false_eq_true, if_false]
  | inner hcycle hvisit _ ih =>
    obtain ⟨least, ih⟩ := ih
    refine ⟨least + 1, fun reach hreach => ?_⟩
    obtain ⟨reach, rfl⟩ := Nat.exists_eq_add_of_le' (Nat.le_of_add_left_le hreach)
    simp only [follow_cons_run, hcycle, hvisit, Bool.false_eq_true, if_false,
      ih reach (Nat.le_of_succ_le_succ hreach)]
  | others hcycle hvisit _ _ ih ihothers =>
    obtain ⟨least, ih⟩ := ih
    obtain ⟨least', ihothers⟩ := ihothers
    refine ⟨max (least + 1) least', fun reach hreach => ?_⟩
    obtain ⟨reach, rfl⟩ := Nat.exists_eq_add_of_le' (show 1 ≤ reach by omega)
    simp only [follow_cons_run, hcycle, hvisit, Bool.false_eq_true, if_false,
      ih reach (by omega), ihothers (reach + 1) (by omega)]

/-- Elements come to one end only. -/
theorem Ends.unique {ts : List Traced} {d : Desk}
    {outcome outcome' : EStateM.Result Halt Desk Crawled}
    (h : Ends s inHead checked ts d outcome) (h' : Ends s inHead checked ts d outcome') :
    outcome = outcome' := by
  obtain ⟨least, h⟩ := h.exists_follow
  obtain ⟨least', h'⟩ := h'.exists_follow
  rw [← h (max least least') (Nat.le_max_left ..), h' (max least least') (Nat.le_max_right ..)]

/-- What is come to within some reach is an outcome, unless the work is unfinished. -/
theorem ends_of_follow {reach : Nat} {ts : List Traced} {d : Desk}
    (h : Decided ((follow s inHead checked reach ts).run d)) :
    Ends s inHead checked ts d ((follow s inHead checked reach ts).run d) := by
  induction reach generalizing ts d with
  | zero =>
    cases ts with
    | nil => exact .nil
    | cons t ts => exact absurd rfl (h d)
  | succ reach ih =>
    induction ts generalizing d with
    | nil => exact .nil
    | cons t ts ihts =>
      rw [follow_cons_run] at h ⊢
      cases hcycle : checked && t.reenters d.components with
      | true => exact .cycle hcycle
      | false =>
        rw [hcycle, if_neg Bool.false_ne_true] at h
        rw [if_neg Bool.false_ne_true]
        cases hvisit : (visit s inHead t.element).run d with
        | error fault d₁ => exact .fault hcycle hvisit
        | ok v d₁ =>
          rw [hvisit] at h
          dsimp only at h ⊢
          have hbelow := @ih (t.leads d.components v) d₁
          cases hrun : (follow s inHead checked reach (t.leads d.components v)).run d₁ with
          | error halt d₂ =>
            rw [hrun] at h hbelow
            exact .inner hcycle hvisit (hbelow h)
          | ok inner d₂ =>
            rw [hrun] at h hbelow
            refine .others hcycle hvisit (hbelow fun _ h => by cases h) (ihts fun d₃ h₃ => h d₃ ?_)
            dsimp only
            rw [h₃]
            rfl

/-- A checked crawl that meets no cycle ends as it would without the check. -/
theorem Ends.unchecked {ts : List Traced} {d : Desk} {outcome : EStateM.Result Halt Desk Crawled}
    (h : Ends s inHead true ts d outcome) (hcycle : ¬ IsCycle outcome) :
    Ends s inHead false ts d outcome := by
  induction h with
  | nil => exact .nil
  | cycle => exact absurd ⟨_, rfl⟩ hcycle
  | fault _ hvisit => exact .fault rfl hvisit
  | inner _ hvisit _ ih => exact .inner rfl hvisit (ih hcycle)
  | others _ hvisit _ _ ih ihothers =>
    refine .others rfl hvisit (ih ?_) (ihothers (mt isCycle_after.mpr hcycle))
    rintro ⟨_, h⟩
    cases h

end

end OutlinePage.Page
