import OutlinePage.Proofs.BuildOutputs
import OutlinePage.Proofs.Crawling

/-!
# The pages that a configuration lists

A document lists pages, each with its source and its target. They become a table by source, so of
the pages that have the same source, however it is spelled, only the last one is built.
-/

namespace OutlinePage.Site

/-! ### Reading the list -/

/-- What a document holds at a key, if it is a mapping. -/
def field (key : Text) : Yaml.Value → Yaml.Value
  | .dict entries => (Yaml.Value.find? key entries).getD .null
  | _ => .null

/-- Source and target of an item of the list, if they are texts. -/
def listedPage : Yaml.Value → Option (Text × Text)
  | .dict fields =>
    match Yaml.Value.find? "src" fields, Yaml.Value.find? "dst" fields with
    | some (.text source), some (.text target) => some (source, target)
    | _, _ => none
  | _ => none

/-- Sources and targets of the pages that a document lists, if it has a list of such items. -/
def listedPages (v : Yaml.Value) : Option (List (Text × Text)) :=
  match field "write" v with
  | .list items => items.mapM listedPage
  | _ => none

/-- What is to be watched, if anything, are several patterns. -/
def WatchesPatterns (d : File.Disk) (base : File.Path) (watch : Yaml.Value) : Prop :=
  watch.isTruthy = true → ∃ patterns, Config.several watch = .ok patterns ∧
    ∀ pattern ∈ patterns, ∃ paths, Config.matching d base pattern = .ok paths

private theorem page_of_listed {v : Yaml.Value} {pair : Text × Text} (h : listedPage v = some pair)
    (file : Text) (base : File.Path) :
    Config.page file base v = .ok (base.join pair.1, base.join pair.2) := by
  cases v with
  | dict fields =>
    rw [listedPage] at h
    split at h
    · next source target hsource htarget =>
      cases h
      rw [Config.page]
      dsimp only
      rw [hsource, htarget]
      rfl
    · cases h
  | _ => cases h

private theorem mapM_page_of_listed {items : List Yaml.Value} {pairs : List (Text × Text)}
    (h : items.mapM listedPage = some pairs) (file : Text) (base : File.Path) :
    items.mapM (Config.page file base) =
      .ok (pairs.map fun pair => (base.join pair.1, base.join pair.2)) := by
  induction items generalizing pairs with
  | nil =>
    cases h
    rfl
  | cons item items ih =>
    rw [List.mapM_cons] at h
    obtain ⟨pair, hitem, hrest⟩ := Option.bind_eq_some_iff.mp h
    obtain ⟨others, hothers, hpairs⟩ := Option.bind_eq_some_iff.mp hrest
    cases hpairs
    rw [List.mapM_cons, page_of_listed hitem, ih hothers]
    rfl

/-- Going through a list gives a result exactly if each item does. -/
theorem exists_mapM_ok {ε α β : Type} {f : α → Except ε β} {as : List α} :
    (∃ bs, as.mapM f = .ok bs) ↔ ∀ a ∈ as, ∃ b, f a = .ok b := by
  induction as with
  | nil => exact iff_of_true ⟨[], rfl⟩ (fun _ h => nomatch h)
  | cons a as ih =>
    rw [List.forall_mem_cons, ← ih, List.mapM_cons]
    cases f a with
    | error e => exact iff_of_false (fun ⟨_, h⟩ => nomatch h) (fun ⟨⟨_, h⟩, _⟩ => nomatch h)
    | ok b =>
      constructor
      · rintro ⟨bs, h⟩
        refine ⟨⟨b, rfl⟩, ?_⟩
        cases hrest : as.mapM f with
        | error e =>
          rw [hrest] at h
          cases h
        | ok others => exact ⟨others, rfl⟩
      · rintro ⟨-, others, hothers⟩
        rw [hothers]
        exact ⟨b :: others, rfl⟩

/-- The paths that are to be watched, for each pattern. -/
def watchedPaths (d : File.Disk) (base : File.Path) (watch : Yaml.Value) :
    Except ConfigFault (List (List File.Path)) :=
  (if watch.isTruthy then Config.several watch else .ok []).bind (·.mapM (Config.matching d base))

private theorem exists_watchedPaths {d : File.Disk} {base : File.Path} {watch : Yaml.Value} :
    (∃ watched, watchedPaths d base watch = .ok watched) ↔ WatchesPatterns d base watch := by
  rw [watchedPaths, WatchesPatterns]
  cases watch.isTruthy with
  | false => exact iff_of_true ⟨[], rfl⟩ (fun h => nomatch h)
  | true =>
    rw [if_pos rfl]
    cases Config.several watch with
    | error fault => exact iff_of_false (fun ⟨_, h⟩ => nomatch h) (fun h => nomatch h rfl)
    | ok patterns =>
      refine exists_mapM_ok.trans ⟨fun h _ => ⟨patterns, rfl, h⟩, fun h => ?_⟩
      obtain ⟨_, hpatterns, hall⟩ := h rfl
      cases hpatterns
      exact hall

/-- The configuration of a document that lists pages. -/
theorem ofValue_of_listed {entries : List (Yaml.Value × Yaml.Value)} {items : List Yaml.Value}
    {pairs : List (Text × Text)} (hwrite : field "write" (.dict entries) = .list items)
    (hitems : items.mapM listedPage = some pairs) (d : File.Disk) (file : Text)
    (base : File.Path) :
    Config.ofValue d file base (.dict entries) =
      if items = [] then .error (.mistaken file .noPages)
      else (watchedPaths d base (field "watch" (.dict entries))).map fun watched => {
        pages := Table.ofList (pairs.map fun pair => (base.join pair.1, base.join pair.2))
        watched := watched.flatten.eraseDups
        final := (field "final" (.dict entries)).isTruthy
        convertScripts :=
          (field "convert_script_extension_to_js" (.dict entries)).isTruthy } := by
  have hentries : (Yaml.Value.dict entries).isTruthy = true := by
    cases entries with
    | nil => cases hwrite
    | cons entry entries => rfl
  have hfield (key : Text) : (Yaml.Value.find? key entries).getD .null =
      field key (.dict entries) := rfl
  rw [Config.ofValue, if_pos hentries]
  simp only [hfield, hwrite]
  cases items with
  | nil => rfl
  | cons item items =>
    have hseveral : Config.several (.list (item :: items)) = .ok (item :: items) := rfl
    have hmapM := mapM_page_of_listed hitems file base
    rw [if_neg (by simp [Yaml.Value.isTruthy]), if_neg (List.cons_ne_nil item items), hseveral]
    dsimp only [bind, Except.bind] at hmapM ⊢
    rw [hmapM, watchedPaths]
    dsimp only
    by_cases hwatch : (field "watch" (.dict entries)).isTruthy = true
    · rw [if_pos hwatch, if_pos hwatch]
      cases Config.several (field "watch" (.dict entries)) with
      | error fault => rfl
      | ok patterns =>
        dsimp only [Except.bind]
        cases patterns.mapM (Config.matching d base) <;> rfl
    · rw [if_neg hwatch, if_neg hwatch]
      rfl

/-- The configuration that a document gives, if it lists pages. -/
theorem load_of_listed {loader : Yaml.Loader} {d : File.Disk} {path : File.Path} {t : Text}
    {v : Yaml.Value} {pairs : List (Text × Text)} (hread : Config.readDocument d path = .ok t)
    (hload : loader t = .ok v) (hpairs : listedPages v = some pairs) (base : Option File.Path) :
    let dir := base.getD path.parent
    ((∃ config, Config.load loader d path base = .ok config) ↔
      pairs ≠ [] ∧ WatchesPatterns d dir (field "watch" v)) ∧
    ∀ config, Config.load loader d path base = .ok config → config.pages =
      Table.ofList (pairs.map fun pair => (dir.join pair.1, dir.join pair.2)) := by
  intro dir
  rw [listedPages] at hpairs
  split at hpairs
  · next items hwrite =>
    cases v with
    | dict entries =>
      have hvalue := ofValue_of_listed hwrite hpairs d path.toText dir
      have hempty : items = [] ↔ pairs = [] := by
        cases items with
        | nil =>
          cases hpairs
          exact iff_of_true rfl rfl
        | cons item items =>
          rw [List.mapM_cons] at hpairs
          obtain ⟨pair, -, hrest⟩ := Option.bind_eq_some_iff.mp hpairs
          obtain ⟨others, -, hcons⟩ := Option.bind_eq_some_iff.mp hrest
          cases hcons
          exact iff_of_false (List.cons_ne_nil _ _) (List.cons_ne_nil _ _)
      rw [Config.load, hread]
      dsimp only
      rw [hload]
      dsimp only
      rw [hvalue, ← exists_watchedPaths, Ne, ← hempty]
      by_cases hitems : items = []
      · rw [if_pos hitems]
        exact ⟨iff_of_false (fun ⟨_, h⟩ => nomatch h) (fun h => h.1 hitems), fun _ h => nomatch h⟩
      · rw [if_neg hitems]
        cases hwatched : watchedPaths d dir (field "watch" (.dict entries)) with
        | error fault =>
          exact ⟨iff_of_false (fun ⟨_, h⟩ => nomatch h) (fun ⟨_, _, h⟩ => nomatch h),
            fun _ h => nomatch h⟩
        | ok watched =>
          refine ⟨iff_of_true ⟨_, rfl⟩ ⟨hitems, watched, rfl⟩, ?_⟩
          intro config hconfig
          cases hconfig
          rfl
    | _ => cases hwrite
  · cases hpairs

/-! ### Building the list -/

/-- The page was built: its source was compiled and the result was written to its target, where it
stays if nothing else is written there later. -/
def Built (config : Config) (s s' : Construction) (page : File.Path × File.Path) : Prop :=
  ∃ site html before later, (page, site) ∈ pageVisits config s ∧
    (response config page site).result = .ok html ∧
    buildOutputs config s = before ++ ⟨page.2, html⟩ :: later ∧
    ((∀ o ∈ later, o.path.resolve s.disk.here = page.2.resolve s.disk.here → o.text = html) →
      s'.disk.files.get? (page.2.resolve s.disk.here) = some (Utf8.encode html))

/-- A build that succeeds builds the pages of its configuration. -/
theorem built_iff {config : Config} {s s' : Construction} (h : (build config).run s = .ok () s')
    {page : File.Path × File.Path} : Built config s s' page ↔ page ∈ config.pages.entries := by
  obtain ⟨hpages, hbuilt⟩ := visits_of_ok h
  constructor
  · rintro ⟨site, -, -, -, hvisit, -⟩
    rw [← hpages]
    exact List.mem_map.mpr ⟨_, hvisit, rfl⟩
  · intro hpage
    rw [← hpages] at hpage
    obtain ⟨⟨_, site⟩, hvisit, rfl⟩ := List.mem_map.mp hpage
    obtain ⟨s₁, hrun⟩ := hbuilt _ hvisit
    obtain ⟨html, hresult, hwritten⟩ := page_written hrun
    obtain ⟨before, later, houtputs⟩ :=
      List.append_of_mem (List.mem_flatMap.mpr ⟨_, hvisit, hwritten⟩ : _ ∈ buildOutputs config s)
    refine ⟨site, html, before, later, hvisit, hresult, houtputs, ?_⟩
    intro hlater
    have hstays := get?_of_output houtputs hlater
    rw [h] at hstays
    exact hstays

/-- A document that lists pages, whatever it is loaded with, gives a configuration exactly if the
list is not empty and what is to be watched are patterns. A build of it that succeeds builds a page
of the list exactly if no later page of the list has the same source. So it builds all of them
exactly if pages with the same source have the same target. -/
theorem listed_pages_built {loader : Yaml.Loader} {d : File.Disk} {path : File.Path} {t : Text}
    {v : Yaml.Value} {pairs : List (Text × Text)} (hread : Config.readDocument d path = .ok t)
    (hload : loader t = .ok v) (hpairs : listedPages v = some pairs) (base : Option File.Path) :
    let dir := base.getD path.parent
    let pages := pairs.map fun pair => (dir.join pair.1, dir.join pair.2)
    ((∃ config, Config.load loader d path base = .ok config) ↔
      pairs ≠ [] ∧ WatchesPatterns d dir (field "watch" v)) ∧
    ∀ config, Config.load loader d path base = .ok config →
      ∀ s s', (build config).run s = .ok () s' →
        (∀ page, Built config s s' page ↔
          ∃ before after, pages = before ++ page :: after ∧ page.1 ∉ after.map (·.1)) ∧
        ((∀ page ∈ pages, Built config s s' page) ↔
          ∀ page ∈ pages, ∀ page' ∈ pages, page.1 = page'.1 → page.2 = page'.2) := by
  intro dir pages
  obtain ⟨hconfig, hpages⟩ := load_of_listed hread hload hpairs base
  refine ⟨hconfig, ?_⟩
  intro config hload s s' hbuild
  have hbuilt (page : File.Path × File.Path) : Built config s s' page ↔
      ∃ before after, pages = before ++ page :: after ∧ page.1 ∉ after.map (·.1) := by
    rw [built_iff hbuild, hpages config hload]
    exact Table.mem_ofList_iff
  refine ⟨hbuilt, ?_⟩
  simp only [hbuilt]
  exact Table.last_entries_iff

/-- A site with its configuration: two pages, each from an outline of its own. -/
def listedSite : Construction :=
  siteOf [("site.yml", "write:\n- {src: a.spl, dst: x.html}\n- {src: ./b.spl, dst: out/y.html}\n"),
    ("a.spl", "p hi\n"), ("b.spl", "p bye\n")]

/-- Both pages that the document lists are built. -/
theorem listed_pages_built_at_two_pages :
    ∃ config s', Config.load Yaml.load listedSite.disk ⟨[], ["site.yml"]⟩ none = .ok config ∧
      (build config).run listedSite = .ok () s' ∧
      ∀ page ∈ [((⟨[], ["a.spl"]⟩, ⟨[], ["x.html"]⟩) : File.Path × File.Path),
        (⟨[], ["b.spl"]⟩, ⟨[], ["out", "y.html"]⟩)], Built config listedSite s' page := by
  have hsite : (Config.readDocument listedSite.disk ⟨[], ["site.yml"]⟩).toOption.bind (fun t =>
      (Yaml.load t).toOption.map fun v => (listedPages v, (field "watch" v).isTruthy)) =
        some (some [("a.spl".toList, "x.html".toList), ("./b.spl".toList, "out/y.html".toList)],
          false) := by
    decide +kernel
  obtain ⟨t, hread, hvalue⟩ := Option.bind_eq_some_iff.mp hsite
  obtain ⟨v, hload, hv⟩ := Option.map_eq_some_iff.mp hvalue
  obtain ⟨hpairs, hwatch⟩ := Prod.mk.inj hv
  obtain ⟨hconfig, hbuilt⟩ := listed_pages_built (Page.toOption_eq_some hread)
    (Page.toOption_eq_some hload) hpairs none
  obtain ⟨config, hloaded⟩ := hconfig.mpr
    ⟨List.cons_ne_nil _ _, fun h => absurd h (Bool.eq_false_iff.mp hwatch)⟩
  have hends : (Config.load Yaml.load listedSite.disk ⟨[], ["site.yml"]⟩ none).toOption.bind
      (fun config => (goodState ((build config).run listedSite)).map fun _ => ()) = some () := by
    decide +kernel
  rw [hloaded] at hends
  obtain ⟨s', hbuild, -⟩ := exists_good_state hends
  refine ⟨config, s', hloaded, hbuild, ?_⟩
  exact (hbuilt config hloaded listedSite s' hbuild).2.mpr (by decide +kernel)

/-- Two targets are listed for one source. The first of them is not written. -/
theorem page_not_built_at_repeated_source :
    let s := siteOf [("a.spl", "p hi\n"),
      ("site.yml", "write:\n- {src: a.spl, dst: x.html}\n- {src: a.spl, dst: y.html}\n")]
    let path : File.Path := ⟨[], ["site.yml"]⟩
    (Config.readDocument s.disk path).toOption.bind
        (fun t => (Yaml.load t).toOption.bind listedPages) =
      some [("a.spl".toList, "x.html".toList), ("a.spl".toList, "y.html".toList)] ∧
    (Config.load Yaml.load s.disk path none).toOption.map (fun config =>
      (goodState ((build config).run s)).map fun s' =>
        (s'.disk.files.contains ["x.html"], s'.disk.files.contains ["y.html"])) =
      some (some (false, true)) := by
  decide +kernel

end OutlinePage.Site
