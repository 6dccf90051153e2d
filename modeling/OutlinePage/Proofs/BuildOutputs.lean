import OutlinePage.Proofs.DiskChanges
import OutlinePage.Proofs.ScriptAnswers
import OutlinePage.Proofs.StatefulWork
import OutlinePage.Site.Watch

/-!
# What a build writes

A build goes through the pages of a configuration, and for each page through the scripts that it
names, until it has done all or meets a fault. What it has written by then can be listed, and the
files on the disk are those from before with the ones of the list written in order. So whatever is
not a target of a page that the build has come to, or of a script of such a page, is left alone.
-/

namespace OutlinePage.Site

/-! ### Each piece of work -/

/-- Writing a file: first the directories are made, which stay if the file is refused. -/
theorem writeFile_run (path : File.Path) (t : Text) (s : Construction) :
    (writeFile path t).run s = match s.disk.makeDirectories path.parent with
      | .error f d => .error (.unwritable f) { s with disk := d }
      | .ok _ d =>
        match d.writeText path t with
        | .error f => .error (.unwritable f) { s with disk := d }
        | .ok d' =>
          .ok () { s with disk := d', log := s.log ++ [⟨.info, "Wrote " ++ path.toText⟩] } := by
  rw [writeFile, EStateM.run_bind, EStateM.run_get]
  dsimp only
  cases s.disk.makeDirectories path.parent with
  | error f d => rfl
  | ok u d =>
    dsimp only [bind, EStateM.bind, EStateM.run, modify, modifyGet, MonadStateOf.modifyGet,
      EStateM.modifyGet, get, getThe, MonadStateOf.get, EStateM.get]
    cases d.writeText path t <;> rfl

/-- What compiling a page gives. -/
def response (config : Config) (page : File.Path × File.Path) (s : Construction) : Page.Response :=
  s.compiler.compileFile s.convert s.disk.reader page.1.toText config.convertScripts config.final

/-- The site after a page was compiled. -/
def compiledSite (config : Config) (page : File.Path × File.Path) (s : Construction) :
    Construction :=
  { s with
    compiler := (response config page s).compiler, log := s.log ++ (response config page s).log }

/-- Compiling a page changes the compiler and the log, also if the page is refused. -/
theorem compileFile_run (config : Config) (page : File.Path × File.Path) (s : Construction) :
    (compileFile page.1.toText config.convertScripts config.final).run s =
      match (response config page s).result with
      | .ok html => .ok html (compiledSite config page s)
      | .error f => .error (.ofRefusal f) (compiledSite config page s) := by
  rw [compileFile, EStateM.run_bind, EStateM.run_get]
  dsimp only [response, compiledSite, bind, EStateM.bind, EStateM.run, set, EStateM.set]
  cases (s.compiler.compileFile s.convert s.disk.reader page.1.toText config.convertScripts
    config.final).result <;> rfl

/-- Compiling a script: one outside of the site is left out, and of the others the name for the
output is found before the source is read. -/
theorem compileScript_run (config : Config) (page : File.Path × File.Path) (script : Text)
    (s : Construction) :
    (compileScript page.1 page.2 script config).run s =
      if isExternal script then .ok none s
      else match scriptTarget? page.2 script with
      | none => .error (.nameless (page.2.parent.join script)) s
      | some path =>
        match s.disk.readText (page.1.parent.join script) with
        | .error f => .error (.unreadable f) s
        | .ok code =>
          let made := s.compiler.service.compile (scriptJob config (page.1.parent.join script) code)
          let s' := { s with
            compiler := { s.compiler with service := made.2.1 }, log := s.log ++ made.2.2 }
          match made.1 with
          | .ok text => .ok (some ⟨path, text⟩) s'
          | .error f => .error (.script f) s' := by
  rw [compileScript]
  split
  · rfl
  · cases scriptTarget? page.2 script with
    | none => rfl
    | some path =>
      dsimp only [bind, EStateM.bind, EStateM.run, get, getThe, MonadStateOf.get, EStateM.get]
      cases s.disk.readText (page.1.parent.join script) with
      | error f => rfl
      | ok code =>
        dsimp only [pure, EStateM.pure, bind, EStateM.bind]
        rcases s.compiler.service.compile (scriptJob config (page.1.parent.join script) code) with
          ⟨result, service, log⟩
        cases result <;> rfl

/-- Compiling a script reads the disk only. -/
theorem compileScript_disk (config : Config) (page : File.Path × File.Path) (script : Text)
    (s : Construction) :
    (stateAfter ((compileScript page.1 page.2 script config).run s)).disk = s.disk := by
  rw [compileScript_run]
  split
  · rfl
  · cases scriptTarget? page.2 script with
    | none => rfl
    | some path =>
      dsimp only
      cases s.disk.readText (page.1.parent.join script) with
      | error f => rfl
      | ok code =>
        dsimp only
        split <;> rfl

/-- A script that was compiled is one of the site, and its code is what the service makes of the
text that is found where the script is. -/
theorem compileScript_eq_ok {config : Config} {page : File.Path × File.Path} {script : Text}
    {s s' : Construction} {o : Output}
    (h : (compileScript page.1 page.2 script config).run s = .ok (some o) s') :
    isExternal script = false ∧ scriptTarget? page.2 script = some o.path ∧
      ∃ code, s.disk.readText (page.1.parent.join script) = .ok code ∧
        s.compiler.service.answer (scriptJob config (page.1.parent.join script) code) =
          .ok o.text := by
  rw [compileScript_run] at h
  split at h
  · cases h
  · next hexternal =>
    refine ⟨Bool.eq_false_iff.mpr hexternal, ?_⟩
    cases htarget : scriptTarget? page.2 script with
    | none =>
      rw [htarget] at h
      cases h
    | some path =>
      rw [htarget] at h
      dsimp only at h
      cases hread : s.disk.readText (page.1.parent.join script) with
      | error f =>
        rw [hread] at h
        cases h
      | ok code =>
        rw [hread] at h
        dsimp only at h
        split at h
        · next text htext =>
          cases h
          exact ⟨rfl, code, rfl, htext⟩
        · cases h

/-- Building a script is compiling it and writing what comes of it. -/
theorem buildScript_run (config : Config) (page : File.Path × File.Path) (script : Text)
    (s : Construction) :
    (buildScript page.1 page.2 script config).run s =
      match (compileScript page.1 page.2 script config).run s with
      | .error f s' => .error f s'
      | .ok none s' => .ok () s'
      | .ok (some o) s' => (writeFile o.path o.text).run s' := by
  rw [buildScript, EStateM.run_bind]
  cases (compileScript page.1 page.2 script config).run s with
  | error f s' => rfl
  | ok o s' => cases o <;> rfl

/-- Building a page: it is compiled and written, and then the scripts are built that it names. -/
theorem buildPage_run (config : Config) (page : File.Path × File.Path) (s : Construction) :
    (buildPage config page).run s =
      match (response config page s).result with
      | .error f => .error (.ofRefusal f) (compiledSite config page s)
      | .ok html =>
        match (writeFile page.2 html).run (compiledSite config page s) with
        | .error f s' => .error f s'
        | .ok _ s' => (s'.compiler.scripts.forM
            fun script => buildScript page.1 page.2 script config).run s' := by
  rw [buildPage, EStateM.run_bind, compileFile_run]
  cases (response config page s).result with
  | error f => rfl
  | ok html =>
    dsimp only
    rw [EStateM.run_bind]
    cases (writeFile page.2 html).run (compiledSite config page s) <;> rfl

/-! ### What is written -/

/-- Where an output goes, and what it holds. -/
def Output.entry (here : File.Place) (o : Output) : File.Place × File.Bytes :=
  (o.path.resolve here, Utf8.encode o.text)

/-- What is written of an output: all, or nothing if the disk refuses it. -/
def written (o : Output) (s : Construction) : List Output :=
  match (writeFile o.path o.text).run s with
  | .ok _ _ => [o]
  | .error _ _ => []

/-- What is written for a script. -/
def scriptOutputs (config : Config) (page : File.Path × File.Path) (script : Text)
    (s : Construction) : List Output :=
  match (compileScript page.1 page.2 script config).run s with
  | .ok (some o) s' => written o s'
  | _ => []

/-- The scripts of a page that a build comes to, each with the site that it finds. -/
def scriptVisits (config : Config) (page : File.Path × File.Path) (s : Construction) :
    List (Text × Construction) :=
  match (response config page s).result with
  | .error _ => []
  | .ok html =>
    match (writeFile page.2 html).run (compiledSite config page s) with
    | .error _ _ => []
    | .ok _ s' =>
      visits (fun script => buildScript page.1 page.2 script config) s'.compiler.scripts s'

/-- What is written for a page and its scripts. -/
def pageOutputs (config : Config) (page : File.Path × File.Path) (s : Construction) :
    List Output :=
  match (response config page s).result with
  | .error _ => []
  | .ok html =>
    written ⟨page.2, html⟩ (compiledSite config page s) ++
      (scriptVisits config page s).flatMap fun v => scriptOutputs config page v.1 v.2

/-- The pages that a build comes to, each with the site that it finds. -/
def pageVisits (config : Config) (s : Construction) :
    List ((File.Path × File.Path) × Construction) :=
  visits (buildPage config) config.pages.entries s

/-- What a build writes, in order. -/
def buildOutputs (config : Config) (s : Construction) : List Output :=
  (pageVisits config s).flatMap fun v => pageOutputs config v.1 v.2

/-- The disk of `s'` is that of `s` after these outputs were written, apart from directories that
were made. -/
def Wrote (s : Construction) (outputs : List Output) (s' : Construction) : Prop :=
  s.disk.Becomes (outputs.map (·.entry s.disk.here)) s'.disk

/-- What leaves the disk alone writes nothing. -/
theorem wrote_of_disk_eq {s s' : Construction} (h : s'.disk = s.disk) : Wrote s [] s' := by
  rw [Wrote, h]
  exact .refl s.disk

/-- What is written by one piece of work after the other is written by both. -/
theorem Wrote.trans {s s' s'' : Construction} {first second : List Output}
    (h : Wrote s first s') (h' : Wrote s' second s'') : Wrote s (first ++ second) s'' := by
  rw [Wrote, List.map_append]
  refine File.Disk.Becomes.trans h ?_
  rw [← h.here]
  exact h'

/-- Writing a file writes that file, or nothing. -/
theorem wrote_writeFile (o : Output) (s : Construction) :
    Wrote s (written o s) (stateAfter ((writeFile o.path o.text).run s)) := by
  rw [written, writeFile_run]
  cases hmake : s.disk.makeDirectories o.path.parent with
  | error f d => exact (File.Disk.makeDirectories_error hmake).1
  | ok u d =>
    have hmade := (File.Disk.makeDirectories_ok hmake).1
    dsimp only
    cases hwrite : d.writeText o.path o.text with
    | error f => exact hmade
    | ok d' =>
      have hentry := (File.Disk.writeText_ok hwrite).2.2
      rw [hmade.here] at hentry
      exact hmade.trans hentry

/-- Building a script writes its outputs and nothing else. -/
theorem wrote_buildScript (config : Config) (page : File.Path × File.Path) (script : Text)
    (s : Construction) :
    Wrote s (scriptOutputs config page script s)
      (stateAfter ((buildScript page.1 page.2 script config).run s)) := by
  have hdisk := compileScript_disk config page script s
  rw [buildScript_run, scriptOutputs]
  cases hcompile : (compileScript page.1 page.2 script config).run s with
  | error f s' =>
    rw [hcompile] at hdisk
    exact wrote_of_disk_eq hdisk
  | ok o s' =>
    rw [hcompile] at hdisk
    cases o with
    | none => exact wrote_of_disk_eq hdisk
    | some o => exact (wrote_of_disk_eq hdisk).trans (wrote_writeFile o s')

/-- Building a page writes its outputs and nothing else. -/
theorem wrote_buildPage (config : Config) (page : File.Path × File.Path) (s : Construction) :
    Wrote s (pageOutputs config page s) (stateAfter ((buildPage config page).run s)) := by
  have hcompiled : Wrote s [] (compiledSite config page s) := wrote_of_disk_eq rfl
  rw [buildPage_run, pageOutputs, scriptVisits]
  cases (response config page s).result with
  | error f => exact hcompiled
  | ok html =>
    have hpage := hcompiled.trans (wrote_writeFile ⟨page.2, html⟩ (compiledSite config page s))
    dsimp only at hpage ⊢
    cases hwrite : (writeFile page.2 html).run (compiledSite config page s) with
    | error f s' =>
      rw [hwrite] at hpage
      rw [List.flatMap_nil, List.append_nil]
      exact hpage
    | ok u s' =>
      rw [hwrite] at hpage
      exact hpage.trans (forM_induction (fun _ => wrote_of_disk_eq rfl) Wrote.trans
        (wrote_buildScript config page) s'.compiler.scripts s')

/-- The files after a build are those from before, with the outputs written in order. -/
theorem wrote_build (config : Config) (s : Construction) :
    Wrote s (buildOutputs config s) (stateAfter ((build config).run s)) :=
  forM_induction (fun _ => wrote_of_disk_eq rfl) Wrote.trans (wrote_buildPage config)
    config.pages.entries s

/-! ### Where it is written -/

/-- Where the compiled scripts go that a page names. -/
def scriptTargets (config : Config) (page : File.Path × File.Path) (s : Construction) :
    List File.Path :=
  ((response config page s).compiler.scripts.filter fun script => !isExternal script).filterMap
    (scriptTarget? page.2)

/-- The paths that may be written when a build comes to a page: the page's own and those of its
scripts, if it can be compiled. -/
def targets (config : Config) (page : File.Path × File.Path) (s : Construction) :
    List File.Path :=
  match (response config page s).result with
  | .error _ => []
  | .ok _ => page.2 :: scriptTargets config page s

/-- Writing a file leaves the compiler and the converter alone. -/
theorem writeFile_keeps (path : File.Path) (t : Text) (s : Construction) :
    (stateAfter ((writeFile path t).run s)).compiler = s.compiler ∧
      (stateAfter ((writeFile path t).run s)).convert = s.convert := by
  rw [writeFile_run]
  split
  · exact ⟨rfl, rfl⟩
  · split <;> exact ⟨rfl, rfl⟩

/-- After a file was written, the compiler is the one from before. -/
theorem writeFile_compiler {path : File.Path} {t : Text} {s s' : Construction}
    (h : (writeFile path t).run s = .ok () s') : s'.compiler = s.compiler := by
  have hkeeps := (writeFile_keeps path t s).1
  rw [h] at hkeeps
  exact hkeeps

private theorem mem_written {o o' : Output} {s : Construction} (h : o ∈ written o' s) : o = o' := by
  rw [written] at h
  split at h
  · exact List.mem_singleton.mp h
  · cases h

private theorem mem_scriptOutputs {config : Config} {page : File.Path × File.Path} {script : Text}
    {s : Construction} {o : Output} (h : o ∈ scriptOutputs config page script s) :
    isExternal script = false ∧ scriptTarget? page.2 script = some o.path := by
  rw [scriptOutputs] at h
  split at h
  · next o' s' hcompile =>
    obtain rfl := mem_written h
    obtain ⟨hexternal, htarget, -⟩ := compileScript_eq_ok hcompile
    exact ⟨hexternal, htarget⟩
  · cases h

/-- The scripts that a build comes to are among those that the page names. -/
theorem mem_scripts_of_visit {config : Config} {page : File.Path × File.Path} {s : Construction}
    {v : Text × Construction} (h : v ∈ scriptVisits config page s) :
    v.1 ∈ (response config page s).compiler.scripts := by
  rw [scriptVisits] at h
  split at h
  · cases h
  · split at h
    · cases h
    · next hwrite =>
      have hscripts := (visits_initial _ _).subset (List.mem_map_of_mem h)
      rw [writeFile_compiler hwrite] at hscripts
      exact hscripts

private theorem path_mem_targets {config : Config} {page : File.Path × File.Path} {s : Construction}
    {o : Output} (h : o ∈ pageOutputs config page s) : o.path ∈ targets config page s := by
  rw [pageOutputs] at h
  rw [targets]
  split at h
  · cases h
  · rcases List.mem_append.mp h with hpage | hscripts
    · rw [mem_written hpage]
      exact List.mem_cons_self
    · obtain ⟨v, hv, ho⟩ := List.mem_flatMap.mp hscripts
      obtain ⟨hexternal, htarget⟩ := mem_scriptOutputs ho
      refine List.mem_cons_of_mem _ (List.mem_filterMap.mpr ⟨v.1, ?_, htarget⟩)
      exact List.mem_filter.mpr ⟨mem_scripts_of_visit hv, by rw [hexternal]; rfl⟩

/-- An output is a target of a page that the build has come to. -/
theorem exists_target {config : Config} {s : Construction} {o : Output}
    (h : o ∈ buildOutputs config s) :
    ∃ v ∈ pageVisits config s, o.path ∈ targets config v.1 v.2 := by
  obtain ⟨v, hv, ho⟩ := List.mem_flatMap.mp h
  exact ⟨v, hv, path_mem_targets ho⟩

/-- Where no output goes, a build changes nothing. -/
theorem get?_after_build {config : Config} {s : Construction} {q : File.Place}
    (h : ∀ o ∈ buildOutputs config s, o.path.resolve s.disk.here ≠ q) :
    (stateAfter ((build config).run s)).disk.files.get? q = s.disk.files.get? q := by
  have hkeys : q ∉ ((buildOutputs config s).map (·.entry s.disk.here)).map (·.1) := by
    rw [List.map_map]
    intro hmem
    obtain ⟨o, ho, hplace⟩ := List.mem_map.mp hmem
    exact h o ho hplace
  rw [(wrote_build config s).files, Table.get?_union_of_not_mem hkeys]

/-- An output stays as it was written, if nothing else is written there later. -/
theorem get?_of_output {config : Config} {s : Construction} {before later : List Output}
    {o : Output} (h : buildOutputs config s = before ++ o :: later)
    (hlater : ∀ o' ∈ later, o'.path.resolve s.disk.here = o.path.resolve s.disk.here →
      o'.text = o.text) :
    (stateAfter ((build config).run s)).disk.files.get? (o.path.resolve s.disk.here) =
      some (Utf8.encode o.text) := by
  rw [(wrote_build config s).files, h, List.map_append, Table.union_append]
  refine Table.get?_union_of_same (List.mem_map_of_mem List.mem_cons_self) ?_ _
  intro entry hentry hplace
  rcases List.mem_cons.mp hentry with rfl | hentry
  · rfl
  · obtain ⟨o', ho', rfl⟩ := List.mem_map.mp hentry
    exact congrArg Utf8.encode (hlater o' ho' hplace)

/-- A page that was built was compiled and written. -/
theorem page_written {config : Config} {page : File.Path × File.Path} {s s' : Construction}
    (h : (buildPage config page).run s = .ok () s') :
    ∃ html, (response config page s).result = .ok html ∧
      ⟨page.2, html⟩ ∈ pageOutputs config page s := by
  rw [buildPage_run] at h
  cases hresult : (response config page s).result with
  | error f =>
    rw [hresult] at h
    cases h
  | ok html =>
    rw [hresult] at h
    refine ⟨html, rfl, ?_⟩
    rw [pageOutputs, hresult]
    refine List.mem_append_left _ ?_
    dsimp only at h
    rw [written]
    split at h
    · cases h
    · next hwrite =>
      rw [hwrite]
      exact List.mem_singleton_self _

/-- If a page cannot be compiled, the build ends there, and has written what it wrote for the pages
before. -/
theorem build_of_refused {config : Config} {s s₁ : Construction}
    {earlier later : List (File.Path × File.Path)} {page : File.Path × File.Path}
    {fault : Page.Refusal} (hpages : config.pages.entries = earlier ++ page :: later)
    (hearlier : (earlier.forM (buildPage config)).run s = .ok () s₁)
    (hfault : (response config page s₁).result = .error fault) :
    (build config).run s = .error (.ofRefusal fault) (compiledSite config page s₁) ∧
      buildOutputs config s = (visits (buildPage config) earlier s).flatMap fun v =>
        pageOutputs config v.1 v.2 := by
  have hrun : (buildPage config page).run s₁ =
      .error (.ofRefusal fault) (compiledSite config page s₁) := by
    rw [buildPage_run, hfault]
  obtain ⟨hvisits, hforM⟩ := visits_append hearlier
  constructor
  · rw [build, hpages, hforM, forM_cons_run, hrun]
  · have hnone : pageOutputs config page s₁ = [] := by
      rw [pageOutputs, hfault]
    rw [buildOutputs, pageVisits, hpages, hvisits, visits, hrun, List.flatMap_append,
      List.flatMap_cons, hnone, List.flatMap_nil, List.append_nil, List.append_nil]

/-- A build changes a file only if it is a target of a page that it has come to. If a page cannot be
read or compiled, the build ends there: the pages before it are written, and its own target and
those of all later pages are as before, unless something that was written for an earlier page went
there. -/
theorem build_changes_only_targets (config : Config) (s : Construction) :
    let outputs := buildOutputs config s
    let before := s.disk.files
    let after := (stateAfter ((build config).run s)).disk.files
    let place (path : File.Path) := path.resolve s.disk.here
    (pageVisits config s).map (·.1) <+: config.pages.entries ∧
    after = before.union ⟨outputs.map (·.entry s.disk.here)⟩ ∧
    (∀ q, (∀ v ∈ pageVisits config s, q ∉ (targets config v.1 v.2).map place) →
      after.get? q = before.get? q) ∧
    ∀ earlier page later s₁ fault, config.pages.entries = earlier ++ page :: later →
      (earlier.forM (buildPage config)).run s = .ok () s₁ →
      (response config page s₁).result = .error fault →
      (∃ s₂, (build config).run s = .error (.ofRefusal fault) s₂) ∧
      (∀ p ∈ page :: later, (∀ v ∈ visits (buildPage config) earlier s,
          place p.2 ∉ (pageOutputs config v.1 v.2).map fun o => place o.path) →
        after.get? (place p.2) = before.get? (place p.2)) ∧
      ∀ p ∈ earlier, ∃ site html, (p, site) ∈ visits (buildPage config) earlier s ∧
        (response config p site).result = .ok html ∧ ⟨p.2, html⟩ ∈ outputs := by
  intro outputs before after place
  have hsame (q : File.Place) (hq : ∀ o ∈ outputs, place o.path ≠ q) :
      after.get? q = before.get? q := get?_after_build hq
  refine ⟨visits_initial _ _, (wrote_build config s).files, ?_, ?_⟩
  · intro q hq
    refine hsame q ?_
    rintro o ho rfl
    obtain ⟨v, hv, htarget⟩ := exists_target ho
    exact hq v hv (List.mem_map_of_mem htarget)
  · intro earlier page later s₁ fault hpages hearlier hfault
    obtain ⟨hbuild, houtputs⟩ := build_of_refused hpages hearlier hfault
    refine ⟨⟨_, hbuild⟩, ?_, ?_⟩
    · intro p hp hearlier'
      refine hsame _ ?_
      intro o ho hplace
      rw [show outputs = _ from houtputs] at ho
      obtain ⟨v, hv, ho⟩ := List.mem_flatMap.mp ho
      exact hearlier' v hv (List.mem_map.mpr ⟨o, ho, hplace⟩)
    · intro p hp
      obtain ⟨hmap, hok⟩ := visits_of_ok hearlier
      rw [← hmap] at hp
      obtain ⟨v, hv, rfl⟩ := List.mem_map.mp hp
      obtain ⟨s', hrun⟩ := hok v hv
      obtain ⟨html, hresult, hwritten⟩ := page_written hrun
      refine ⟨v.2, html, hv, hresult, ?_⟩
      rw [show outputs = _ from houtputs]
      exact List.mem_flatMap.mpr ⟨v, hv, hwritten⟩

/-- A site with these texts in its files. A compiled script begins with a mark. -/
def siteOf (files : List (Text × Text)) : Construction where
  disk := edit {} (files.map fun file =>
    ((File.Path.ofText file.1).parts, some (Utf8.encode file.2)))
  compiler := { service := {
    load := fun _ => { result := .ok fun job => .ok ("/**/" ++ job.source) } } }
  convert := some
  loader := Yaml.load

/-- A configuration with these pages. -/
def configOf (pages : List (Text × Text)) : Config where
  pages := Table.ofList
    (pages.map fun page => (File.Path.ofText page.1, File.Path.ofText page.2))

/-- A site with a page that imports a file that is not there. -/
def partialSite : Construction :=
  siteOf [("index.spl", "script(src=app.ts)\n"), ("app.ts", "a()"),
    ("about.spl", "@import gone.spl\n"), ("out/about.html", "old")]

/-- The page with the import comes between two others. -/
def partialConfig : Config :=
  configOf [("index.spl", "out/index.html"), ("about.spl", "out/about.html"),
    ("contact.spl", "out/contact.html")]

/-- The page with the import ends the build. The page before it is written with its script, and the
targets of the other two are as before. -/
theorem build_changes_only_targets_at_missing_import :
    let outputs := buildOutputs partialConfig partialSite
    let after := (stateAfter ((build partialConfig).run partialSite)).disk.files
    (∃ fault s, (build partialConfig).run partialSite = .error fault s) ∧
      outputs.map (fun o => o.path.parts) =
        [["out".toList, "index.html".toList], ["out".toList, "app.js".toList]] ∧
      after.get? ["out", "about.html"] = some (Utf8.encode "old") ∧
      after.get? ["out", "contact.html"] = none := by
  intro outputs after
  let earlier : List (File.Path × File.Path) := [(⟨[], ["index.spl"]⟩, ⟨[], ["out", "index.html"]⟩)]
  let page : File.Path × File.Path := (⟨[], ["about.spl"]⟩, ⟨[], ["out", "about.html"]⟩)
  let later : List (File.Path × File.Path) :=
    [(⟨[], ["contact.spl"]⟩, ⟨[], ["out", "contact.html"]⟩)]
  have hpages : partialConfig.pages.entries = earlier ++ page :: later := by decide +kernel
  obtain ⟨s₁, hearlier, hnone⟩ :=
    exists_good_state (show (goodState ((earlier.forM (buildPage partialConfig)).run
      partialSite)).map (fun s₁ => (response partialConfig page s₁).result.toOption) = some none by
        decide +kernel)
  obtain ⟨fault, hfault⟩ : ∃ fault, (response partialConfig page s₁).result = .error fault := by
    cases hresult : (response partialConfig page s₁).result with
    | error fault => exact ⟨fault, rfl⟩
    | ok html =>
      rw [hresult] at hnone
      cases hnone
  obtain ⟨-, -, -, hrefused⟩ := build_changes_only_targets partialConfig partialSite
  obtain ⟨⟨s₂, hbuild⟩, hkept, -⟩ := hrefused earlier page later s₁ fault hpages hearlier hfault
  refine ⟨⟨_, s₂, hbuild⟩, by decide +kernel, ?_, ?_⟩
  · have habout := hkept page List.mem_cons_self (by decide +kernel)
    exact habout.trans (by decide +kernel)
  · have hcontact := hkept _ (List.mem_cons_of_mem page List.mem_cons_self) (by decide +kernel)
    exact hcontact.trans (by decide +kernel)

end OutlinePage.Site
