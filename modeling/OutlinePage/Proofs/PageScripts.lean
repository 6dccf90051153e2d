import OutlinePage.Proofs.PageContent

/-!
# The scripts that a page names

The list of external scripts is gathered while a document is worked through: from the head, from the
body, from imported files and from every use of a component, before and after elements are moved to
the head. It comes to what the script elements of the page say, each once.
-/

namespace OutlinePage.Page

/-- The source of a script element as it is written, unless there is nothing between its quotes. -/
def namedSource (t : Tag) : Option Text :=
  if t.name = "script" then
    (t.attributes.get? "src").filter fun src => !(Text.unquote src).isEmpty
  else none

/-- The source of a script element as it stands on the page. -/
def pageSource (o : Options) (src : Text) : Text :=
  if o.convertScripts then compiledName src else src

/-- The external scripts that script elements at any depth name, in order. -/
def scriptNames (es : List Element) : List Text :=
  ((tags es).filterMap namedSource).map Text.unquote

/-! ### One tag -/

private theorem unquote_ne_nil {v : Text} (h : 3 ≤ v.length) : Text.unquote v ≠ [] := by
  intro hnil
  have hlength : v.length ≤ (Text.unquote v).length + 2 := by
    unfold Text.unquote
    split
    · split
      · simp
        omega
      · simp
    · omega
  rw [hnil, List.length_nil] at hlength
  omega

/-- The name of a compiled script is as long as that of its source, and differs from it only where
there is something before the ending. -/
theorem compiledName_cases (src : Text) :
    compiledName src = src ∨ 3 ≤ src.length ∧ (compiledName src).length = src.length := by
  unfold compiledName
  split
  · next hplain =>
    have hlength : 3 ≤ src.length := (List.isSuffixOf_iff_suffix.mp hplain).length_le
    right
    simp [Text.dropEnd]
    omega
  · dsimp only
    split
    · next hquoted =>
      have hlength : (Text.takeEnd 4 src).length = 4 := by
        rcases Bool.or_eq_true_iff.mp hquoted with h | h <;> rw [beq_iff_eq.mp h] <;> rfl
      simp only [Text.takeEnd, List.length_drop] at hlength
      right
      simp [Text.dropEnd, Text.takeEnd]
      omega
    · exact Or.inl rfl

private theorem unquote_pageSource_isEmpty (o : Options) (src : Text) :
    (Text.unquote (pageSource o src)).isEmpty = (Text.unquote src).isEmpty := by
  unfold pageSource
  split
  · rcases compiledName_cases src with h | ⟨hlength, hsame⟩
    · rw [h]
    · rw [Bool.eq_iff_iff, List.isEmpty_iff, List.isEmpty_iff]
      exact iff_of_false (unquote_ne_nil (hsame ▸ hlength)) (unquote_ne_nil hlength)
  · rfl

private theorem namedSource_of_ne {t : Tag} (h : t.name ≠ "script") :
    namedSource t = none :=
  if_neg h

private theorem namedSource_canonical (t : Tag) : namedSource (canonical t) = namedSource t := by
  by_cases h : t.name = "css"
  · have hstyle : (canonical t).name = "style" := by
      rw [canonical, if_pos h]
    rw [namedSource_of_ne (by rw [hstyle]; decide), namedSource_of_ne (by rw [h]; decide)]
  · rw [canonical, if_neg h]

/-- A tag adds to the list what its source says. -/
theorem shorthand_snd (o : Options) (t : Tag) :
    (shorthand o t).2 = ((namedSource t).map Text.unquote).toList := by
  unfold shorthand namedSource
  split
  · next hstyle =>
    rw [if_neg (by rw [hstyle]; decide)]
    rfl
  · split
    · cases t.attributes.get? "src" with
      | none => rfl
      | some src => cases hsrc : (Text.unquote src).isEmpty <;> simp [Option.filter, hsrc]
    · rfl

private theorem namedSource_of_inline {t : Tag} {source : Text} (h : inlineScript t = some source) :
    namedSource t = none := by
  unfold inlineScript at h
  split at h
  · next hscript => rw [namedSource, if_pos hscript.1, hscript.2, Option.filter_none]
  · cases h

private theorem namedSource_linkStyle {t : Tag} (h : t.name = "style") :
    namedSource (linkStyle t) = none := by
  unfold linkStyle
  split
  · exact namedSource_of_ne (by rw [h]; decide)
  · exact namedSource_of_ne (show "link".toList ≠ "script".toList by decide)

private theorem namedSource_shorthand (o : Options) (t : Tag) :
    namedSource (shorthand o t).1 = (namedSource t).map (pageSource o) := by
  unfold shorthand
  split
  · next hstyle =>
    rw [namedSource_linkStyle hstyle, namedSource_of_ne (by rw [hstyle]; decide), Option.map_none]
  · split
    · next hscript =>
      have hempty := unquote_pageSource_isEmpty o
      split
      · next src hsrc =>
        cases hconvert : o.convertScripts with
        | true =>
          have hsame (src : Text) : pageSource o src = compiledName src := if_pos hconvert
          simp only [namedSource, if_pos hscript, hsrc, Table.get?_insert_self, if_true,
            Option.filter_some, ← hsame, hempty]
          split <;> rfl
        | false =>
          have hsame : pageSource o = id := funext fun src => if_neg (by simp [hconvert])
          rw [hsame, Option.map_id]
          rfl
      · next hsrc =>
        rw [namedSource, if_pos hscript, hsrc]
        rfl
    · next hscript =>
      rw [namedSource_of_ne hscript]
      rfl

/-- Rewriting a tag keeps its source, but for the ending if scripts are converted. -/
theorem namedSource_rewritten (o : Options) (answer : Script.Job → Except Script.Fault Text)
    (t : Tag) : namedSource (rewritten o answer t) = (namedSource t).map (pageSource o) := by
  rw [← namedSource_canonical t]
  unfold rewritten
  dsimp only
  split
  · exact namedSource_shorthand o (canonical t)
  · next source hinline =>
    have hnone := namedSource_of_inline hinline
    rw [hnone]
    exact hnone

/-! ### Many tags -/

private theorem sources_eq (o : Options) (es : List Element) : sources o es = scriptNames es := by
  rw [sources, scriptNames]
  induction tags es with
  | nil => rfl
  | cons t ts ih =>
    rw [List.flatMap_cons, ih, shorthand_snd, namedSource_canonical, List.filterMap_cons]
    cases namedSource t <;> rfl

private theorem scriptNames_append (es es' : List Element) :
    scriptNames (es ++ es') = scriptNames es ++ scriptNames es' := by
  rw [scriptNames, tags_append, List.filterMap_append, List.map_append]
  rfl

/-- Does the element name an external script? -/
def namesScript (t : Tag) : Bool := (namedSource t).isSome

private theorem namesScript_of_ne {t : Tag} (h : t.name ≠ "script") : namesScript t = false := by
  rw [namesScript, namedSource_of_ne h, Option.isSome_none]

/-- The script elements among some tags, each with its source as written and as it is rewritten. -/
def entriesOf (rewrite : Tag → Tag) (ts : List Tag) : List (Text × Tag) :=
  ts.filterMap fun t => (namedSource t).map fun src => (src, rewrite t)

section

variable (o : Options) (answer : Script.Job → Except Script.Fault Text) (ts : List Tag)

private theorem entriesOf_fst (rewrite : Tag → Tag) :
    (entriesOf rewrite ts).map (·.1) = ts.filterMap namedSource := by
  rw [entriesOf, List.map_filterMap]
  refine congrArg (fun f => ts.filterMap f) (funext fun t => ?_)
  cases namedSource t <;> rfl

private theorem entriesOf_snd :
    (entriesOf (rewritten o answer) ts).map (·.2) =
      (ts.map (rewritten o answer)).filter namesScript := by
  induction ts with
  | nil => rfl
  | cons t ts ih =>
    have hnames : namesScript (rewritten o answer t) = (namedSource t).isSome := by
      rw [namesScript, namedSource_rewritten, Option.isSome_map]
    rw [entriesOf, List.filterMap_cons, List.map_cons, List.filter_cons, hnames, ← ih]
    cases namedSource t <;> rfl

private theorem entriesOf_source : ∀ entry ∈ entriesOf (rewritten o answer) ts,
    namedSource entry.2 = some (pageSource o entry.1) := by
  intro entry hentry
  obtain ⟨t, -, ht⟩ := List.mem_filterMap.mp hentry
  obtain ⟨src, hsrc, rfl⟩ := Option.map_eq_some_iff.mp ht
  rw [namedSource_rewritten, hsrc]
  rfl

end

/-- Nothing of the shell of a page names a script, and what is taken to the head is on it once. -/
theorem namesScript_page {doctype html head : Tag} (hdoctype : namesScript doctype = false)
    (hhtml : namesScript html = false) (hhead : namesScript head = false)
    (inHead inBody : List Element) :
    ((tags [⟨doctype, []⟩, ⟨html, ⟨head, inHead ++ [] ++ collect inBody⟩ :: prune inBody⟩]).filter
      namesScript).Perm ((tags (inHead ++ inBody)).filter namesScript) := by
  have hbody : (tags (collect inBody) ++ tags (prune inBody)).Perm (tags inBody) :=
    List.perm_append_comm.trans (tags_prune_collect inBody)
  simp only [tags_cons, tags_nil, tags_append, List.filter_cons, hdoctype, hhtml, hhead,
    List.nil_append, List.append_nil, List.append_assoc, Bool.false_eq_true, if_false]
  exact (hbody.append_left _).filter _

/-- Working through elements finds the scripts that they name once they are expanded. -/
theorem crawl_scripts {s : Setting} {inHead : Bool} {reach : Nat} {room : Room}
    {es : List Element} {d d' : Desk} {r : Crawled} (hdivs : AllDivs d.components)
    (h : (crawl s inHead reach room es).run d = .ok r d') :
    ∃ expanded, expand s reach d.components es = .ok (expanded, d'.components) ∧
      r.scripts = scriptNames expanded := by
  obtain ⟨expanded, hexpand, rfl, -⟩ := crawl_comesTo h hdivs
  refine ⟨expanded, hexpand, ?_⟩
  rw [← sources_eq s.options]
  cases inHead <;> rfl

/-- What a component adds to the list of scripts: its definition adds nothing, and each use adds
what the children of its template and its own name once they are expanded. -/
theorem component_scripts {s : Setting} {inHead : Bool} {reach : Nat} {room : Room}
    {e : Element} {d d' : Desk} {r : Crawled} (hdivs : AllDivs d.components)
    (himport : Vocabulary.importTags.contains e.name = false)
    (h : (crawl s inHead (reach + 1) room [e]).run d = .ok r d') :
    match d.components.get? (known e).name with
    | some template => ∃ inside,
        expand s reach d.components (template.children ++ e.children) =
            .ok (inside, d'.components) ∧ r.scripts = scriptNames inside
    | none => isDefinition e.tag = true → r.scripts = [] := by
  obtain ⟨-, r₁, d₁, r₂, hone, hnone, rfl⟩ := crawl_cons.mp h
  cases hnone
  have hscripts : (r₁.append {}).scripts = r₁.scripts := List.append_nil r₁.scripts
  rw [hscripts]
  cases hone with
  | imported himport' => rw [himport] at himport'; cases himport'
  | used _ hget hbelow =>
    rw [hget]
    have hinside := crawl_scripts hdivs hbelow
    exact hinside
  | defined _ hget =>
    rw [hget]
    exact fun _ => rfl
  | kept _ hget hdefinition =>
    rw [hget]
    intro hmarker
    rw [← isDefinition_canonical] at hmarker
    exact absurd (hdefinition.symm.trans hmarker) Bool.false_ne_true

/-- The script elements of a page, each with its source as it is in the document once imports and
components are expanded. -/
structure ScriptEntries (s : Setting) (reach : Nat) (elements : List Element) (page : Assembled)
    (entries : List (Text × Tag)) : Prop where
  sources :
    let file := s.options.file
    let children := (frame file elements).2
    ∃ inHead components inBody components',
      expand s reach {} (headChildren children ++ [viewport file]) = .ok (inHead, components) ∧
      expand s reach components [⟨firstTag file "body" children, bodyChildren children⟩] =
        .ok (inBody, components') ∧
      entries.map (·.1) = (tags (inHead ++ inBody)).filterMap namedSource
  perm : (entries.map (·.2)).Perm ((tags page.elements).filter namesScript)
  scripts : page.scripts = entries.map fun entry => Text.unquote entry.1
  source : ∀ entry ∈ entries, namedSource entry.2 = some (pageSource s.options entry.1)

/-- Every page that was put together has entries for its scripts. -/
theorem exists_scriptEntries {s : Setting} {reach : Nat} {room : Room} {elements : List Element}
    {d d' : Desk} {page : Assembled} (hd : d.components = {})
    (h : (assemble s reach room elements).run d = .ok page d') :
    ∃ entries, ScriptEntries s reach elements page entries := by
  obtain ⟨inHead, desk, inBody, hhead, hbody, -⟩ := assemble_eq_ok h
  have hdivs : AllDivs d.components := hd ▸ allDivs_empty
  have hhtml : namesScript (frame s.options.file elements).1 = false :=
    namesScript_of_ne (by rw [frame_name]; decide)
  have hfirst : namesScript (firstTag s.options.file "head" (frame s.options.file elements).2) =
      false :=
    namesScript_of_ne (by rw [firstTag_name]; decide)
  cases h.symm.trans (assemble_of_crawls rfl hhead hbody)
  obtain ⟨expandedHead, hexpandHead, rfl, hanswer⟩ := crawl_comesTo hhead hdivs
  obtain ⟨expandedBody, hexpandBody, rfl, -⟩ := crawl_comesTo hbody (crawl_allDivs hhead hdivs)
  rw [hd] at hexpandHead
  refine ⟨entriesOf (rewritten s.options d.scripts.answer) (tags (expandedHead ++ expandedBody)),
    ⟨expandedHead, desk.components, expandedBody, d'.components, hexpandHead, hexpandBody,
      entriesOf_fst _ _⟩, ?_, ?_, entriesOf_source _ _ _⟩
  · rw [entriesOf_snd, ← tags_mapTags, mapTags_append, hanswer]
    exact (namesScript_page rfl hhtml hfirst _ _).symm
  · have hnames : scriptNames (expandedHead ++ expandedBody) =
        (entriesOf (rewritten s.options d.scripts.answer)
          (tags (expandedHead ++ expandedBody))).map (fun entry => Text.unquote entry.1) := by
      rw [scriptNames, ← entriesOf_fst _ (rewritten s.options d.scripts.answer), List.map_map]
      rfl
    rw [← hnames, scriptNames_append, ← sources_eq s.options, ← sources_eq s.options]
    rfl

/-- The scripts that a page names and its script elements belong together one to one. Each entry of
the list is the source of an element of the document, imports and components expanded, without its
quotes; that element is on the page, in the head or in the body, with its source as written or, if
scripts are converted, with that of the compiled script. No other element of the page names a
script. A component adds its scripts anew with every use, and nothing with its definition. -/
theorem scripts_match_page {s : Setting} {reach : Nat} {room : Room} {elements : List Element}
    {d d' : Desk} {page : Assembled} (hd : d.components = {})
    (h : (assemble s reach room elements).run d = .ok page d') :
    let file := s.options.file
    let children := (frame file elements).2
    (∃ inHead components inBody components',
      expand s reach {} (headChildren children ++ [viewport file]) = .ok (inHead, components) ∧
      expand s reach components [⟨firstTag file "body" children, bodyChildren children⟩] =
        .ok (inBody, components') ∧
      ∃ entries : List (Text × Tag),
        entries.map (·.1) = (tags (inHead ++ inBody)).filterMap namedSource ∧
        (entries.map (·.2)).Perm ((tags page.elements).filter namesScript) ∧
        page.scripts = entries.map (fun entry => Text.unquote entry.1) ∧
        ∀ entry ∈ entries, namedSource entry.2 = some (pageSource s.options entry.1)) ∧
    ∀ {inHead : Bool} {reach : Nat} {room : Room} {e : Element} {d d' : Desk} {r : Crawled},
      AllDivs d.components → Vocabulary.importTags.contains e.name = false →
      (crawl s inHead (reach + 1) room [e]).run d = .ok r d' →
      match d.components.get? (known e).name with
      | some template => ∃ inside,
          expand s reach d.components (template.children ++ e.children) =
            .ok (inside, d'.components) ∧ r.scripts = scriptNames inside
      | none => isDefinition e.tag = true → r.scripts = [] := by
  intro file children
  refine ⟨?_, component_scripts⟩
  obtain ⟨entries, hentries⟩ := exists_scriptEntries hd h
  obtain ⟨inHead, components, inBody, components', hhead, hbody, hsources⟩ := hentries.sources
  exact ⟨inHead, components, inBody, components', hhead, hbody, entries, hsources, hentries.perm,
    hentries.scripts, hentries.source⟩

/-- A document with scripts in its head, below a title and in an imported component that is used
twice. -/
def scriptedDocument : List Element :=
  [⟨{ name := "title", file := "index.spl" },
      [⟨{ name := "script", file := "index.spl", attributes := ⟨[("src", "late.ts")]⟩ }, []⟩]⟩,
    ⟨{ name := "@import", file := "index.spl", text := some "card.spl".toList }, []⟩,
    ⟨{ name := "card", file := "index.spl" }, []⟩,
    ⟨{ name := "card", file := "index.spl" }, []⟩,
    ⟨{ name := "head", file := "index.spl" },
      [⟨{ name := "script", file := "index.spl", attributes := ⟨[("src", "'lib.js'")]⟩ }, []⟩,
        ⟨{ name := "script", file := "index.spl", attributes := ⟨[("src", "''")]⟩ }, []⟩]⟩]

/-- A store that holds the file that `scriptedDocument` imports; scripts are converted. -/
def scriptedSetting : Setting where
  options := { file := "index.spl", convertScripts := true }
  read := fun path =>
    if path = "card.spl" then .ok "card(@)\n\tscript(src=card.ts)\n" else .error (.unavailable path)

/-- The scripts of this document are those of its page, each as often as it is used. -/
theorem scripts_match_page_at_cards :
    plainDesk.components = {} ∧
      ∃ page d',
        (assemble scriptedSetting 4 (some 3) scriptedDocument).run plainDesk = .ok page d' ∧
        page.scripts =
          ["lib.js".toList, "late.ts".toList, "./card.ts".toList, "./card.ts".toList] ∧
        (tags page.elements).filterMap namedSource = ["'lib.js'".toList, "late.js".toList,
          "\"./card.js\"".toList, "\"./card.js\"".toList] ∧
        ∃ entries : List (Text × Tag),
          (entries.map (·.2)).Perm ((tags page.elements).filter namesScript) ∧
          page.scripts = entries.map (fun entry => Text.unquote entry.1) ∧
          ∀ entry ∈ entries,
            namedSource entry.2 = some (pageSource scriptedSetting.options entry.1) := by
  have hpage : ((assemble scriptedSetting 4 (some 3) scriptedDocument).run' plainDesk).map
      (fun page => (page.scripts, (tags page.elements).filterMap namedSource)) =
      some (["lib.js".toList, "late.ts".toList, "./card.ts".toList, "./card.ts".toList],
        ["'lib.js'".toList, "late.js".toList, "\"./card.js\"".toList,
          "\"./card.js\"".toList]) := by
    decide +kernel
  obtain ⟨page, d', hrun, hfound⟩ := exists_run_of_map hpage
  obtain ⟨hscripts, hsources⟩ := Prod.mk.inj hfound
  obtain ⟨-, -, -, -, -, -, entries, -, hperm, hnames, hsame⟩ := (scripts_match_page rfl hrun).1
  exact ⟨rfl, page, d', hrun, hscripts, hsources, entries, hperm, hnames, hsame⟩

end OutlinePage.Page
