import OutlinePage.Proofs.BuildOutputs
import OutlinePage.Proofs.LeftScripts
import OutlinePage.Proofs.PageScripts
import OutlinePage.Proofs.ScriptEndings

/-!
# Pages and the scripts next to them

A build compiles every script that a page names, except those outside of the site, from the file
that the document refers to, and writes it next to the page. Whether the page refers to it there
depends on the ending of the reference, and whether it is still there in the end on what is written
later.
-/

namespace OutlinePage.Site

/-- What is asked of the compiler for a page. -/
def pageRequest (config : Config) (page : File.Path × File.Path) : Page.Request :=
  .file page.1.toText config.convertScripts config.final

/-! ### The scripts of a page -/

/-- The compiler is left with the scripts of the page that it has put together. -/
theorem response_scripts {config : Config} {page : File.Path × File.Path} {s : Construction}
    {assembled : Page.Assembled}
    (h : s.compiler.page? s.disk.reader (pageRequest config page) = some assembled) :
    (response config page s).compiler.scripts = assembled.scripts := by
  have hscripts :=
    (Page.serves s.compiler s.convert s.disk.reader (pageRequest config page)).scripts_eq
  obtain ⟨outline, houtline, -⟩ := Option.bind_eq_some_iff.mp h
  rw [houtline, h] at hscripts
  exact hscripts

/-- A page that was put together has its elements from an outline. -/
theorem exists_assemble_of_page {c : Page.Compiler} {read : File.Reader} {request : Page.Request}
    {assembled : Page.Assembled} (h : c.page? read request = some assembled) :
    ∃ source options elements, request.outline? read = some (source, options) ∧
      Outline.read source options = .ok elements ∧
      ∃ d d', d.components = {} ∧
        (Page.assemble ⟨options, read⟩ c.reach (some Page.depthLimit) elements).run d =
          .ok assembled d' := by
  obtain ⟨⟨source, options⟩, houtline, hwork⟩ := Option.bind_eq_some_iff.mp h
  obtain ⟨d', hrun⟩ := Page.exists_run_of_run' hwork
  obtain ⟨elements, d, hread, hassemble⟩ := Page.run_bind_eq_ok.mp hrun
  obtain ⟨hread, hcomponents, -⟩ := Page.readOutline_eq_ok hread
  exact ⟨source, options, elements, houtline, hread, d, d', hcomponents, hassemble⟩

private theorem convertScripts_of_outline {config : Config} {page : File.Path × File.Path}
    {read : File.Reader} {source : Text} {options : Options}
    (h : (pageRequest config page).outline? read = some (source, options)) :
    options.convertScripts = config.convertScripts := by
  rw [pageRequest, Page.Request.outline?] at h
  split at h
  · cases h
    rfl
  · cases h

/-- The build of a page comes to all scripts that the page names, and is done with each. -/
theorem scriptVisits_of_ok {config : Config} {page : File.Path × File.Path} {s s' : Construction}
    (h : (buildPage config page).run s = .ok () s') :
    (scriptVisits config page s).map (·.1) = (response config page s).compiler.scripts ∧
      ∀ v ∈ scriptVisits config page s,
        ∃ s'', (buildScript page.1 page.2 v.1 config).run v.2 = .ok () s'' := by
  rw [buildPage_run] at h
  rw [scriptVisits]
  split at h
  · cases h
  · next html hresult =>
    split at h
    · cases h
    · next s₁ hwrite =>
      have hscripts : s₁.compiler.scripts = (response config page s).compiler.scripts :=
        congrArg (·.scripts) (writeFile_compiler hwrite)
      rw [← hscripts]
      exact visits_of_ok h

/-- A script of the site is compiled, or there is a fault. -/
theorem compileScript_ne_none {config : Config} {page : File.Path × File.Path} {script : Text}
    {s s' : Construction} (hexternal : isExternal script = false) :
    (compileScript page.1 page.2 script config).run s ≠ .ok none s' := by
  intro h
  rw [compileScript_run, if_neg (by rw [hexternal]; exact Bool.false_ne_true)] at h
  split at h
  · cases h
  · split at h
    · cases h
    · dsimp only at h
      split at h <;> cases h

/-- A script of the site that was built was compiled from the file that it names, and written. -/
theorem script_written {config : Config} {page : File.Path × File.Path} {script : Text}
    {s s' : Construction} (hexternal : isExternal script = false)
    (h : (buildScript page.1 page.2 script config).run s = .ok () s') :
    ∃ o code, o ∈ scriptOutputs config page script s ∧ scriptTarget? page.2 script = some o.path ∧
      s.disk.readText (page.1.parent.join script) = .ok code ∧
      s.compiler.service.answer (scriptJob config (page.1.parent.join script) code) =
        .ok o.text := by
  rw [buildScript_run] at h
  cases hcompile : (compileScript page.1 page.2 script config).run s with
  | error f s₁ =>
    rw [hcompile] at h
    cases h
  | ok o? s₁ =>
    rw [hcompile] at h
    cases o? with
    | none => exact absurd hcompile (compileScript_ne_none hexternal)
    | some o =>
      obtain ⟨-, htarget, code, hread, hanswer⟩ := compileScript_eq_ok hcompile
      refine ⟨o, code, ?_, htarget, hread, hanswer⟩
      rw [scriptOutputs, hcompile]
      dsimp only at h ⊢
      rw [written, h]
      exact List.mem_cons_self

/-- What is written for a script of a page is an output of the build. -/
theorem mem_buildOutputs {config : Config} {s : Construction}
    {v : (File.Path × File.Path) × Construction} (hv : v ∈ pageVisits config s)
    {w : Text × Construction} (hw : w ∈ scriptVisits config v.1 v.2) {o : Output}
    (ho : o ∈ scriptOutputs config v.1 w.1 w.2) : o ∈ buildOutputs config s := by
  refine List.mem_flatMap.mpr ⟨v, hv, ?_⟩
  rw [pageOutputs]
  cases hresult : (response config v.1 v.2).result with
  | error f =>
    rw [scriptVisits, hresult] at hw
    cases hw
  | ok html =>
    exact List.mem_append_right _ (List.mem_flatMap.mpr ⟨w, hw, ho⟩)

/-- In a build that succeeds, every script element of a page whose source leads to the site has its
script built: it is compiled from the file that the element's source in the document names, and it
is written where the page refers to it exactly if the reference has a known ending. There it stays,
if nothing else is written to that place later. -/
theorem scripts_built_for_pages {config : Config} {s s' : Construction}
    (hconvert : config.convertScripts = true) (h : (build config).run s = .ok () s') :
    let place (path : File.Path) := path.resolve s.disk.here
    (pageVisits config s).map (·.1) = config.pages.entries ∧
    ∀ v ∈ pageVisits config s, ∀ assembled,
      v.2.compiler.page? v.2.disk.reader (pageRequest config v.1) = some assembled →
      ∃ source options elements entries,
        (pageRequest config v.1).outline? v.2.disk.reader = some (source, options) ∧
        Outline.read source options = .ok elements ∧
        Page.ScriptEntries ⟨options, v.2.disk.reader⟩ v.2.compiler.reach elements assembled
          entries ∧
        ∀ entry ∈ entries, Page.namedSource entry.2 = some (Page.compiledName entry.1) ∧
          let script := Text.unquote entry.1
          let reference := Text.unquote (Page.compiledName entry.1)
          (isExternal reference = false → ∃ site code o before later,
            (script, site) ∈ scriptVisits config v.1 v.2 ∧
            site.disk.readText (v.1.1.parent.join script) = .ok code ∧
            site.compiler.service.answer (scriptJob config (v.1.1.parent.join script) code) =
              .ok o.text ∧
            scriptTarget? v.1.2 script = some o.path ∧
            buildOutputs config s = before ++ o :: later ∧
            (place o.path = place (v.1.2.parent.join reference) ↔
              HasKnownEnding script (v.1.2.parent.join script).name) ∧
            ((∀ o' ∈ later, place o'.path = place o.path → o'.text = o.text) →
              s'.disk.files.get? (place o.path) = some (Utf8.encode o.text))) := by
  intro place
  obtain ⟨hpages, hbuilt⟩ := visits_of_ok h
  refine ⟨hpages, ?_⟩
  intro v hv assembled hassembled
  obtain ⟨s₁, hpage⟩ := hbuilt v hv
  obtain ⟨hscripts, hdone⟩ := scriptVisits_of_ok hpage
  rw [response_scripts hassembled] at hscripts
  obtain ⟨source, options, elements, houtline, hread, d, d', hd, hassemble⟩ :=
    exists_assemble_of_page hassembled
  obtain ⟨entries, hentries⟩ := Page.exists_scriptEntries hd hassemble
  refine ⟨source, options, elements, entries, houtline, hread, hentries, ?_⟩
  intro entry hentry
  have hoptions : options.convertScripts = true :=
    (convertScripts_of_outline houtline).trans hconvert
  have hsource := hentries.source entry hentry
  rw [Page.pageSource, if_pos hoptions] at hsource
  refine ⟨hsource, ?_⟩
  intro script reference hexternal
  rw [Page.isExternal_compiledName] at hexternal
  have hscript : script ∈ (scriptVisits config v.1 v.2).map (·.1) := by
    rw [hscripts, hentries.scripts]
    exact List.mem_map_of_mem hentry
  obtain ⟨⟨_, site⟩, hvisit, rfl⟩ := List.mem_map.mp hscript
  obtain ⟨s₂, hbuild⟩ := hdone _ hvisit
  obtain ⟨o, code, ho, htarget, hcode, hanswer⟩ := script_written hexternal hbuild
  obtain ⟨before, later, houtputs⟩ := List.append_of_mem (mem_buildOutputs hv hvisit ho)
  refine ⟨site, code, o, before, later, hvisit, hcode, hanswer, htarget, houtputs,
    scriptTarget_at_reference htarget hexternal _, ?_⟩
  intro hlater
  have hstays := get?_of_output houtputs hlater
  rw [h] at hstays
  exact hstays

/-- A configuration with one page, for which references to scripts are converted. -/
def convertingConfig : Config :=
  { configOf [("index.spl", "out/index.html")] with convertScripts := true }

/-- A site with a script in the head and one in the body of its page. -/
def scriptedSite : Construction :=
  siteOf [("index.spl", "script(src=\"app.ts\")\nhead\n\tscript(src=lib/util.js)\n"),
    ("app.ts", "a()"), ("lib/util.js", "u()")]

/-- Both scripts of this site are written where the page refers to them, with and without quotes. -/
theorem scripts_built_for_pages_at_quoted_reference :
    ∃ s', (build convertingConfig).run scriptedSite = .ok () s' ∧
      ∃ v ∈ pageVisits convertingConfig scriptedSite, ∃ assembled,
        v.2.compiler.page? v.2.disk.reader (pageRequest convertingConfig v.1) = some assembled ∧
        (Page.tags assembled.elements).filterMap Page.namedSource =
          ["lib/util.js".toList, "\"app.js\"".toList] ∧
        ∀ t ∈ (Page.tags assembled.elements).filter Page.namesScript, ∃ src o,
          Page.namedSource t = some src ∧ o ∈ buildOutputs convertingConfig scriptedSite ∧
          s'.disk.files.get? ((v.1.2.parent.join (Text.unquote src)).resolve
            scriptedSite.disk.here) = some (Utf8.encode o.text) := by
  obtain ⟨s', hbuild, -⟩ := exists_good_state (show (goodState
    ((build convertingConfig).run scriptedSite)).map (fun _ => ()) = some () by decide +kernel)
  let page : File.Path × File.Path := (⟨[], ["index.spl"]⟩, ⟨[], ["out", "index.html"]⟩)
  have hpages : convertingConfig.pages.entries = [page] := by decide +kernel
  have hvisit : (page, scriptedSite) ∈ pageVisits convertingConfig scriptedSite := by
    rw [pageVisits, hpages]
    exact List.mem_cons_self
  obtain ⟨assembled, hassembled, hfound⟩ := Option.map_eq_some_iff.mp (show
    (scriptedSite.compiler.page? scriptedSite.disk.reader (pageRequest convertingConfig page)).map
      (fun a => (a.scripts, (Page.tags a.elements).filterMap Page.namedSource)) =
        some (["lib/util.js".toList, "app.ts".toList],
          ["lib/util.js".toList, "\"app.js\"".toList]) by decide +kernel)
  obtain ⟨hscripts, hsources⟩ := Prod.mk.inj hfound
  have hknown : ∀ script ∈ ["lib/util.js".toList, "app.ts".toList], isExternal script = false ∧
      HasKnownEnding script (page.2.parent.join script).name := by
    decide +kernel
  have hapart : ∀ o ∈ buildOutputs convertingConfig scriptedSite,
      ∀ o' ∈ buildOutputs convertingConfig scriptedSite,
        o'.path.resolve scriptedSite.disk.here = o.path.resolve scriptedSite.disk.here →
          o'.text = o.text := by
    decide +kernel
  obtain ⟨-, hbuilt⟩ :=
    scripts_built_for_pages (rfl : convertingConfig.convertScripts = true) hbuild
  obtain ⟨_, _, _, entries, -, -, hentries, hall⟩ := hbuilt _ hvisit assembled hassembled
  refine ⟨s', hbuild, _, hvisit, assembled, hassembled, hsources, ?_⟩
  intro t ht
  obtain ⟨entry, hentry, rfl⟩ := List.mem_map.mp (hentries.perm.mem_iff.mpr ht)
  have hscript : Text.unquote entry.1 ∈ assembled.scripts := by
    rw [hentries.scripts]
    exact List.mem_map_of_mem hentry
  rw [hscripts] at hscript
  obtain ⟨hexternal, hending⟩ := hknown _ hscript
  obtain ⟨hsource, hscriptBuilt⟩ := hall entry hentry
  obtain ⟨_, _, o, before, later, -, -, -, -, houtputs, hplace, hstays⟩ :=
    hscriptBuilt ((Page.isExternal_compiledName entry.1).trans hexternal)
  rw [houtputs] at hapart
  have hmem : o ∈ before ++ o :: later := List.mem_append_right before List.mem_cons_self
  have hfile := hstays fun o' ho' => hapart o hmem o'
    (List.mem_append_right before (List.mem_cons_of_mem o ho'))
  rw [hplace.mpr hending] at hfile
  exact ⟨_, o, hsource, houtputs ▸ hmem, hfile⟩

/-- The ending of this script is none of the known ones. The page still refers to the source, and
the compiled script is written under another name. -/
theorem script_elsewhere_at_tsx :
    let s := siteOf [("index.spl", "script(src=app.tsx)\n"), ("app.tsx", "a()")]
    let page : File.Path × File.Path := (⟨[], ["index.spl"]⟩, ⟨[], ["out", "index.html"]⟩)
    (goodState ((build convertingConfig).run s)).map (fun s' =>
      (s'.disk.files.get? ["out", "app.tsx"], s'.disk.files.get? ["out", "app.js"])) =
        some (none, some (Utf8.encode "/**/a()")) ∧
      (pageVisits convertingConfig s).map (·.1) = [page] ∧
      (s.compiler.page? s.disk.reader (pageRequest convertingConfig page)).map (fun assembled =>
        (Page.tags assembled.elements).filterMap Page.namedSource) = some ["app.tsx".toList] := by
  decide +kernel

-- Two scripts with the same name before their endings go to one file, and the later one stays.
example :
    let s := siteOf [("index.spl", "script(src=app.ts)\nscript(src=app.js)\n"), ("app.ts", "a()"),
      ("app.js", "b()")]
    (goodState ((build convertingConfig).run s)).map (fun s' =>
      s'.disk.files.get? ["out", "app.js"]) = some (some (Utf8.encode "/**/b()")) := by
  decide +kernel

end OutlinePage.Site
