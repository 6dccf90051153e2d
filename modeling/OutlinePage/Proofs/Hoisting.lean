import OutlinePage.Proofs.Expansion
import OutlinePage.Proofs.Forest
import OutlinePage.Proofs.ScriptAnswers

/-!
# Hoisting

Working through a document comes to three passes that have nothing to do with each other: expanding
imports and components, rewriting every tag where it stands, and taking out the elements that belong
in the head. The last one is given by two functions on trees, which share the tags among them: one
keeps what stays and one collects what is taken out.
-/

namespace OutlinePage.Page

/-! ### Rewriting -/

/-- The tag with its shorthands written out and its script compiled, for what the script service
answers. -/
def rewritten (o : Options) (answer : Script.Job → Except Script.Fault Text) (t : Tag) : Tag :=
  let t := canonical t
  match inlineScript t with
  | none => (shorthand o t).1
  | some source => { t with text := some ((answer (jobOf o t source)).toOption.getD []) }

/-- The script in the tag, if there is one, compiles. -/
def Compiles (o : Options) (answer : Script.Job → Except Script.Fault Text) (t : Tag) : Prop :=
  ∀ source, inlineScript (canonical t) = some source →
    ∃ code, answer (jobOf o (canonical t) source) = .ok code

/-- The external scripts that the tags name, in order. -/
def sources (o : Options) (es : List Element) : List Text :=
  (tags es).flatMap fun t => (shorthand o (canonical t)).2

private theorem sources_cons (o : Options) (tag : Tag) (children rest : List Element) :
    sources o (⟨tag, children⟩ :: rest) =
      (shorthand o (canonical tag)).2 ++ sources o children ++ sources o rest := by
  rw [sources, tags_cons, List.flatMap_cons, List.flatMap_append, List.append_assoc]
  rfl

private theorem shorthand_of_inline {o : Options} {t : Tag} {source : Text}
    (h : inlineScript t = some source) : (shorthand o t).2 = [] := by
  rw [inlineScript] at h
  split at h
  · next hscript =>
    have hstyle : t.name ≠ "style" := by
      rw [hscript.1]
      decide
    rw [shorthand, if_neg hstyle, if_pos hscript.1, hscript.2]
  · cases h

/-- Writing out the shorthands of a tag rewrites it, names its script, and leaves the components and
the answers of the script service as they are. -/
theorem expandTag_eq_ok {s : Setting} {t tag : Tag} {scripts : List Text} {d d' : Desk}
    (h : (expandTag s (canonical t)).run d = .ok (tag, scripts) d') :
    tag = rewritten s.options d.scripts.answer t ∧
      scripts = (shorthand s.options (canonical t)).2 ∧
      d'.components = d.components ∧ d'.scripts.answer = d.scripts.answer := by
  rw [rewritten]
  rw [expandTag_eq] at h
  cases hinline : inlineScript (canonical t) with
  | none =>
    rw [hinline] at h
    obtain ⟨hresult, rfl⟩ := run_pure_eq_ok.mp h
    exact ⟨congrArg Prod.fst hresult, congrArg Prod.snd hresult, rfl, rfl⟩
  | some source =>
    rw [hinline] at h
    obtain ⟨code, d₁, hcompile, hret⟩ := run_bind_eq_ok.mp h
    obtain ⟨hresult, rfl⟩ := run_pure_eq_ok.mp hret
    obtain ⟨service, log, hservice, rfl⟩ := compileInline_eq_ok.mp hcompile
    cases hresult
    have hanswer : d.scripts.answer (jobOf s.options (canonical t) source) = .ok code :=
      congrArg Prod.fst hservice
    refine ⟨?_, (shorthand_of_inline hinline).symm, rfl, Script.answer_of_compile_ok hservice⟩
    simp only [hanswer]
    rfl

/-- A tag whose script compiles can be rewritten. -/
theorem exists_expandTag {s : Setting} {t : Tag} {d : Desk}
    (h : Compiles s.options d.scripts.answer t) :
    ∃ result d', (expandTag s (canonical t)).run d = .ok result d' := by
  rw [expandTag_eq]
  cases hinline : inlineScript (canonical t) with
  | none => exact ⟨_, d, rfl⟩
  | some source =>
    obtain ⟨code, hcode⟩ := h source hinline
    rcases hservice : d.scripts.compile (jobOf s.options (canonical t) source) with
      ⟨result, service, log⟩
    obtain rfl : result = .ok code := (congrArg Prod.fst hservice).symm.trans hcode
    have hcompile := compileInline_eq_ok.mpr ⟨service, log, hservice, rfl⟩
    exact ⟨_, _, run_bind_eq_ok.mpr ⟨code, _, hcompile, rfl⟩⟩

/-- There is nothing to be compiled of a tag that is no script. -/
theorem compiles_of_not_script (o : Options) (answer : Script.Job → Except Script.Fault Text)
    {t : Tag} (h : t.name ≠ "script") : Compiles o answer t := by
  intro source hinline
  rw [inlineScript] at hinline
  split at hinline
  · next hscript =>
    rw [canonical] at hscript
    split at hscript
    · cases hscript.1
    · exact absurd hscript.1 h
  · cases hinline

private theorem rewritten_canonical (o : Options) (answer : Script.Job → Except Script.Fault Text)
    (t : Tag) : rewritten o answer (canonical t) = rewritten o answer t := by
  rw [rewritten, rewritten, canonical_canonical]

/-- A tag that is no shorthand and no script stays as it is. -/
theorem rewritten_of_plain (o : Options) (answer : Script.Job → Except Script.Fault Text) {t : Tag}
    (h : t.name ≠ "css" ∧ t.name ≠ "style" ∧ t.name ≠ "script") :
    rewritten o answer t = t ∧ (shorthand o (canonical t)).2 = [] := by
  obtain ⟨hcss, hstyle, hscript⟩ := h
  have hcanonical : canonical t = t := if_neg hcss
  have hinline : inlineScript t = none := if_neg fun h => hscript h.1
  have hshort : shorthand o t = (t, []) := by
    rw [shorthand, if_neg hstyle, if_neg hscript]
  constructor
  · simp only [rewritten, hcanonical, hinline, hshort]
  · rw [hcanonical, hshort]

private theorem rewritten_instantiate (o : Options) (answer : Script.Job → Except Script.Fault Text)
    {template : Element} (h : template.name = "div") (use : Element) :
    rewritten o answer (instantiate template use).tag = (instantiate template use).tag ∧
      (shorthand o (canonical (instantiate template use).tag)).2 = [] := by
  have hdiv : (instantiate template use).tag.name = "div" := h
  exact rewritten_of_plain o answer (by rw [hdiv]; decide)

/-! ### Taking out what belongs in the head -/

mutual

/-- The element without what belongs in the head, if it stays itself. -/
def pruneElement : Element → List Element
  | ⟨tag, children⟩ => if isHeadTag tag then [] else [⟨tag, prune children⟩]

/-- The elements without those that belong in the head. -/
def prune : List Element → List Element
  | [] => []
  | e :: es => pruneElement e ++ prune es

end

mutual

/-- What belongs in the head of an element and of those below it. -/
def collectElement : Element → List Element
  | ⟨tag, children⟩ => collect children ++ if isHeadTag tag then [⟨tag, prune children⟩] else []

/-- The elements that belong in the head, each after those below it. -/
def collect : List Element → List Element
  | [] => []
  | e :: es => collectElement e ++ collect es

end

/-- Of no elements none stay. -/
@[simp] theorem prune_nil : prune [] = [] := rfl

/-- Of no elements none belong in the head. -/
@[simp] theorem collect_nil : collect [] = [] := rfl

/-- An element stays with the rest of its children, unless it belongs in the head. -/
@[simp] theorem prune_cons (tag : Tag) (children rest : List Element) :
    prune (⟨tag, children⟩ :: rest) =
      (if isHeadTag tag then [] else [⟨tag, prune children⟩]) ++ prune rest := rfl

/-- What belongs in the head of an element's children comes before the element. -/
@[simp] theorem collect_cons (tag : Tag) (children rest : List Element) :
    collect (⟨tag, children⟩ :: rest) =
      (collect children ++ if isHeadTag tag then [⟨tag, prune children⟩] else []) ++
        collect rest := rfl

/-- Every tag is in one of the two places, and only once. -/
theorem tags_prune_collect (es : List Element) :
    (tags (prune es) ++ tags (collect es)).Perm (tags es) := by
  induction es using Outline.forest_induction with
  | nil => exact List.Perm.refl _
  | cons tag children rest ihc ihr =>
    rw [List.perm_iff_count] at ihc ihr ⊢
    intro t
    have hchildren := ihc t
    have hrest := ihr t
    rw [List.count_append] at hchildren hrest
    cases hhead : isHeadTag tag <;>
      simp [hhead, List.count_cons, ← hchildren, ← hrest] <;> omega

/-- What working through elements comes to once they are rewritten: inside the head nothing is taken
out. -/
def arranged (inHead : Bool) (es : List Element) (scripts : List Text) : Crawled :=
  if inHead then ⟨es, scripts, []⟩ else ⟨prune es, scripts, collect es⟩

private theorem arranged_nil (inHead : Bool) : arranged inHead [] [] = {} := by
  cases inHead <;> rfl

private theorem prune_append (es es' : List Element) :
    prune (es ++ es') = prune es ++ prune es' := by
  induction es with
  | nil => rfl
  | cons e es ih => rw [List.cons_append, prune, prune, ih, List.append_assoc]

private theorem collect_append (es es' : List Element) :
    collect (es ++ es') = collect es ++ collect es' := by
  induction es with
  | nil => rfl
  | cons e es ih => rw [List.cons_append, collect, collect, ih, List.append_assoc]

private theorem arranged_append (inHead : Bool) (es es' : List Element)
    (scripts scripts' : List Text) :
    (arranged inHead es scripts).append (arranged inHead es' scripts') =
      arranged inHead (es ++ es') (scripts ++ scripts') := by
  cases inHead with
  | true => rfl
  | false =>
    simp only [arranged, Bool.false_eq_true, if_false, Crawled.append, prune_append, collect_append]

/-- An element is put in its place as the two functions on trees do it. -/
theorem placed_arranged (inHead : Bool) (tag : Tag) (own : List Text) (children : List Element)
    (scripts : List Text) :
    placed inHead tag own (arranged inHead children scripts) =
      arranged inHead [⟨tag, children⟩] (own ++ scripts) := by
  cases inHead with
  | true => exact placed_other (Or.inl rfl) own _
  | false =>
    cases hhead : isHeadTag tag with
    | true =>
      rw [placed_head hhead]
      simp [arranged, hhead]
    | false =>
      rw [placed_other (Or.inr hhead)]
      simp [arranged, hhead]

/-! ### Whole documents -/

/-- What working through elements without imports and components comes to: they are rewritten, and
then what belongs in the head is taken out. -/
def outcome (o : Options) (answer : Script.Job → Except Script.Fault Text) (inHead : Bool)
    (es : List Element) : Crawled :=
  arranged inHead (mapTags (rewritten o answer) es) (sources o es)

private theorem outcome_append (o : Options) (answer : Script.Job → Except Script.Fault Text)
    (inHead : Bool) (es es' : List Element) :
    (outcome o answer inHead es).append (outcome o answer inHead es') =
      outcome o answer inHead (es ++ es') := by
  rw [outcome, outcome, arranged_append, outcome, mapTags_append, sources, sources, sources,
    tags_append, List.flatMap_append]

private theorem placed_outcome (o : Options) (answer : Script.Job → Except Script.Fault Text)
    (inHead : Bool) (tag : Tag) (children : List Element) :
    placed inHead (rewritten o answer tag) (shorthand o (canonical tag)).2
        (outcome o answer inHead children) =
      outcome o answer inHead [⟨tag, children⟩] := by
  have hsources : sources o [⟨tag, children⟩] =
      (shorthand o (canonical tag)).2 ++ sources o children := by
    rw [sources_cons, sources, sources, tags_nil, List.flatMap_nil, List.append_nil]
  rw [outcome, placed_arranged, outcome, hsources]
  rfl

/-- Once they were expanded, working through elements comes to rewriting and taking out. -/
def ComesTo (s : Setting) (inHead : Bool) (expanded : List Element) (r : Crawled) (d d' : Desk) :
    Prop :=
  r = outcome s.options d.scripts.answer inHead expanded ∧
    d'.scripts.answer = d.scripts.answer

/-- One element is expanded, rewritten and put in its place. -/
theorem CrawlsElement.comesTo {s : Setting} {inHead : Bool} {reach : Nat} {room : Room}
    {e : Element} {d d' : Desk} {r : Crawled}
    (h : CrawlsElement s inHead (crawl s inHead reach) room e d r d') (hdivs : AllDivs d.components)
    (ih : ∀ {room es d r d'}, (crawl s inHead reach room es).run d = .ok r d' →
      AllDivs d.components →
      ∃ expanded, expand s reach d.components es = .ok (expanded, d'.components) ∧
        ComesTo s inHead expanded r d d') :
    ∃ expanded,
      expandElement s (expand s reach) d.components e = .ok (expanded, d'.components) ∧
        ComesTo s inHead expanded r d d' := by
  cases h with
  | imported himport hread hbelow =>
    obtain ⟨hes, hc, hs⟩ := importElements_eq_ok hread
    obtain ⟨expanded, hexpand, hr, hanswer⟩ := ih hbelow (hc ▸ hdivs)
    rw [hc] at hexpand
    rw [hs] at hr hanswer
    exact ⟨expanded, (expandElement_imported himport hes).trans hexpand, hr, hanswer⟩
  | used himport hget hbelow =>
    obtain ⟨children, hexpand, hr, hanswer⟩ := ih hbelow hdivs
    refine ⟨_, expandElement_used himport hget hexpand, ?_, hanswer⟩
    have hdiv := hdivs.name_eq hget
    obtain ⟨hsame, hnone⟩ := rewritten_instantiate s.options d.scripts.answer hdiv (known e)
    rw [← placed_outcome, hsame, hnone, ← hr]
    exact (placed_other (Or.inr (isHeadTag_instantiate hdiv (known e))) [] _).symm
  | defined himport hget hdefinition =>
    exact ⟨[], expandElement_defined himport hget hdefinition, (arranged_nil inHead).symm, rfl⟩
  | kept himport hget hdefinition hexpandTag hbelow =>
    obtain ⟨rfl, rfl, hc, hs⟩ := expandTag_eq_ok hexpandTag
    obtain ⟨children, hexpand, hr, hanswer⟩ := ih hbelow (hc ▸ hdivs)
    rw [hc] at hexpand
    rw [hs] at hr hanswer
    refine ⟨_, expandElement_kept himport hget hdefinition hexpand, ?_, hanswer⟩
    have hknown : (known e).tag = canonical e.tag := rfl
    rw [← placed_outcome, hknown, rewritten_canonical, canonical_canonical, ← hr]

/-- Expanding elements, rewriting every tag and taking out what belongs in the head, one after the
other, is what working through them comes to. -/
theorem crawl_comesTo {s : Setting} {inHead : Bool} {reach : Nat} {room : Room}
    {es : List Element} {d d' : Desk} {r : Crawled}
    (h : (crawl s inHead reach room es).run d = .ok r d') :
    AllDivs d.components →
      ∃ expanded, expand s reach d.components es = .ok (expanded, d'.components) ∧
        ComesTo s inHead expanded r d d' := by
  refine crawl_induction (P := fun reach _ es d r d' => AllDivs d.components →
    ∃ expanded, expand s reach d.components es = .ok (expanded, d'.components) ∧
      ComesTo s inHead expanded r d d') ?_ ?_ h
  · intro reach room d _
    exact ⟨[], expand_nil s reach d.components, (arranged_nil inHead).symm, rfl⟩
  · intro reach room e es d r₁ d₁ r₂ d' _ hone ih hothers hdivs
    obtain ⟨first, hfirst, rfl, hanswer₁⟩ := hone.comesTo hdivs ih
    obtain ⟨others, hrest, rfl, hanswer₂⟩ := hothers (hone.allDivs crawl_allDivs hdivs)
    refine ⟨first ++ others, expand_cons hfirst hrest, ?_, hanswer₂.trans hanswer₁⟩
    rw [hanswer₁, outcome_append]

/-- No element is an import or a definition, at any depth. -/
def Plain (es : List Element) : Prop :=
  ∀ t ∈ tags es, Vocabulary.importTags.contains t.name = false ∧ isDefinition t = false

instance (es : List Element) : Decidable (Plain es) :=
  inferInstanceAs (Decidable (∀ t ∈ tags es,
    Vocabulary.importTags.contains t.name = false ∧ isDefinition t = false))

/-- There is room for so many levels. -/
def Room.Holds (room : Room) (levels : Nat) : Prop := ∀ n ∈ room, levels ≤ n

instance (room : Room) (levels : Nat) : Decidable (room.Holds levels) :=
  inferInstanceAs (Decidable (∀ n ∈ room, levels ≤ n))

/-- Room for some levels is room for fewer. -/
theorem Room.Holds.mono {room : Room} {levels levels' : Nat} (h : room.Holds levels)
    (hle : levels' ≤ levels) : room.Holds levels' := fun n hn => Nat.le_trans hle (h n hn)

private theorem Room.Holds.ne_zero {room : Room} {levels : Nat} (h : room.Holds (levels + 1)) :
    room ≠ some 0 := by
  rintro rfl
  exact absurd (h 0 rfl) (Nat.not_succ_le_zero levels)

private theorem Room.Holds.inner {room : Room} {levels : Nat} (h : room.Holds (levels + 1)) :
    room.inner.Holds levels := by
  intro n hn
  obtain ⟨m, rfl, rfl⟩ := Option.map_eq_some_iff.mp hn
  exact Nat.le_sub_one_of_lt (h m rfl)

/-- Elements without imports and definitions are worked through as long as their scripts compile and
there is room for them. -/
theorem crawl_plain {s : Setting} (inHead : Bool) {reach : Nat} {room : Room} {es : List Element}
    {d : Desk} (hplain : Plain es)
    (hcompile : ∀ t ∈ tags es, Compiles s.options d.scripts.answer t)
    (hreach : height es ≤ reach) (hroom : room.Holds (height es)) (hd : d.components = {}) :
    ∃ d', (crawl s inHead reach room es).run d =
        .ok (outcome s.options d.scripts.answer inHead es) d' ∧
      d'.components = {} ∧ d'.scripts.answer = d.scripts.answer := by
  induction es using Outline.forest_induction generalizing reach room d with
  | nil =>
    refine ⟨d, ?_, hd, rfl⟩
    rw [crawl_nil, outcome, mapTags_nil, sources, tags_nil, List.flatMap_nil, arranged_nil]
  | cons tag children rest ihc ihr =>
    rw [Plain, tags_cons, List.forall_mem_cons, List.forall_mem_append] at hplain
    rw [tags_cons, List.forall_mem_cons, List.forall_mem_append] at hcompile
    rw [height_cons] at hroom
    rw [height_cons, Nat.max_le] at hreach
    obtain ⟨⟨himport, hmarker⟩, hchildren, hrest⟩ := hplain
    obtain ⟨hown, hcompilec, hcompiler⟩ := hcompile
    obtain ⟨reach, rfl⟩ : ∃ n, reach = n + 1 := Nat.exists_eq_add_of_le' (by omega)
    obtain ⟨⟨tag', scripts⟩, d₁, hexpand⟩ := exists_expandTag hown
    obtain ⟨htag, hscripts, hd₁, hanswer₁⟩ := expandTag_eq_ok hexpand
    rw [← hanswer₁] at hcompilec hcompiler
    have hbelow : height children ≤ reach := by omega
    have hheld : room.Holds (height children + 1) := hroom.mono (Nat.le_max_left ..)
    obtain ⟨d₂, hinner, hd₂, hanswer₂⟩ :=
      ihc hchildren hcompilec hbelow hheld.inner (hd₁.trans hd)
    rw [← hanswer₂] at hcompiler
    obtain ⟨d₃, hothers, hd₃, hanswer₃⟩ :=
      ihr hrest hcompiler hreach.2 (hroom.mono (Nat.le_max_right ..)) hd₂
    refine ⟨d₃, ?_, hd₃, hanswer₃.trans (hanswer₂.trans hanswer₁)⟩
    have hget : d.components.get? (known ⟨tag, children⟩).name = none := by
      rw [hd]
      rfl
    have hkept : CrawlsElement s inHead (crawl s inHead reach) room ⟨tag, children⟩ d _ d₂ :=
      .kept himport hget ((isDefinition_canonical tag).trans hmarker) hexpand hinner
    rw [htag, hscripts, hanswer₁, placed_outcome] at hkept
    rw [hanswer₂, hanswer₁] at hothers
    exact crawl_cons.mpr ⟨hheld.ne_zero, _, d₂, _, hkept, hothers,
      (outcome_append _ _ inHead [_] rest).symm⟩

end OutlinePage.Page
