import OutlinePage.Proofs.GreaterReach
import OutlinePage.Proofs.TrackedReads

/-!
# Builds that are watched

A build that is done again after a change reports the fault that it ends with, and the watch goes
on. This is so for every fault but three: a page or a script whose bytes are no text or whose path
has a NUL in it, a script for whose output there is no name, and an output whose path has a NUL in
it. These go on to whoever asked for the build. A build that follows its imports without end does
neither.
-/

namespace OutlinePage.Script

/-- Neither the tool of the service nor any attempt to load it breaks off in a way that is not the
tool's own refusal. -/
structure Service.NeverCrashes (s : Service) : Prop where
  load : ∀ attempt, (s.load attempt).result ≠ .error .crashed
  loaded : ∀ attempt tool, (s.load attempt).result = .ok tool → ∀ job, tool job ≠ .error .crashed
  tool : ∀ job, s.tool job ≠ .error .crashed

namespace Service.NeverCrashes

variable {s : Service}

/-- Compiling a script does not crash, and does not come to do so later. -/
theorem compile (h : s.NeverCrashes) (job : Job) :
    (s.compile job).1 ≠ .error .crashed ∧ (s.compile job).2.1.NeverCrashes := by
  cases hphase : s.phase with
  | ready tool =>
    have htool : s.tool = tool := by
      rw [Service.phase] at hphase
      split at hphase <;> cases hphase
      rfl
    rw [compile_of_ready hphase]
    exact ⟨htool ▸ h.tool job, h⟩
  | loading =>
    rw [compile_of_loading hphase]
    exact ⟨by simp, h⟩
  | idle =>
    rw [compile_of_idle hphase]
    cases hload : (s.load (s.attempts + 1)).result with
    | ok tool =>
      have htool := h.loaded (s.attempts + 1) tool hload
      exact ⟨htool job, h.load, h.loaded, htool⟩
    | error fault =>
      have hfault := h.load (s.attempts + 1)
      rw [hload] at hfault
      refine ⟨fun hcrash => hfault ?_, h.load, h.loaded, h.tool⟩
      rw [Except.error.inj hcrash]

end Service.NeverCrashes

end OutlinePage.Script

namespace OutlinePage.Page

/-! ### The script service during the work on a page -/

/-- What holds of the script service before the work holds of it afterwards. -/
def Preserves (P : Script.Service → Prop) {α : Type} (x : Work α) : Prop :=
  ∀ d, P d.scripts → P (stateAfter (x.run d)).scripts

section

variable {P : Script.Service → Prop} {α β : Type}

private theorem preserves_of_scripts {x : Work α}
    (h : ∀ d, (stateAfter (x.run d)).scripts = d.scripts) : Preserves P x := by
  intro d hd
  rwa [h d]

private theorem Preserves.bind {x : Work α} {f : α → Work β} (hx : Preserves P x)
    (hf : ∀ a, Preserves P (f a)) : Preserves P (x >>= f) := by
  intro d hd
  have hfirst := hx d hd
  rw [EStateM.run_bind]
  cases hrun : x.run d with
  | error fault d' =>
    rw [hrun] at hfirst
    exact hfirst
  | ok a d' =>
    rw [hrun] at hfirst
    exact hf a d' hfirst

/-- A step leaves the script service alone or compiles a script with it. -/
theorem stepwise_preserves (hP : ∀ service job, P service → P (service.compile job).2.1)
    (o : Options) : Stepwise o fun _ x => ∀ read, Preserves P (x read) where
  pure _ _ := preserves_of_scripts fun _ => rfl
  bind hx hf read := (hx read).bind fun a => hf a read
  mistaken _ _ := preserves_of_scripts fun _ => rfl
  log _ _ := preserves_of_scripts fun _ => rfl
  fetch path importer read := by
    apply preserves_of_scripts
    intro d
    cases hread : read path with
    | ok source => rw [fetch_of_ok importer d hread, stateAfter]
    | error fault => rw [fetch_of_error importer d hread, stateAfter]
  compileInline t source read := by
    intro d hd
    have hservice := hP d.scripts (jobOf o t source) hd
    rw [compileInline_run]
    split
    · next h => rwa [h] at hservice
    · next h => rwa [h] at hservice
  lookUp _ _ := preserves_of_scripts fun _ => rfl
  register _ _ := preserves_of_scripts fun _ => rfl

/-- Compiling a page uses the script service for scripts only. -/
theorem preserves_compileFile (hP : ∀ service job, P service → P (service.compile job).2.1)
    {c : Compiler} (hc : P c.service) (convert : Converter)
    (read : File.Reader) (path : Text) (convertScripts final : Bool) :
    P (c.compileFile convert read path convertScripts final).compiler.service := by
  rw [Compiler.compileFile]
  cases read path with
  | error fault => exact hc
  | ok source =>
    have hlost (fault : Fault) : Preserves P (throw fault : Work Crawled) :=
      preserves_of_scripts fun _ => rfl
    have hwork := (stepwise_preserves hP { file := path, convertScripts, final }).compileWork
      (fun _ => hlost .endless) (fun _ => hlost .unfinished) c.reach source read
      { scripts := c.service } hc
    dsimp only [Compilation.respond]
    cases hrun : (compileWork ⟨{ file := path, convertScripts, final }, read⟩ c.reach source).run
        { scripts := c.service } with
    | ok page d =>
      obtain ⟨log, hmade⟩ := compile_of_ok convert hrun
      rw [hrun] at hwork
      rw [hmade]
      exact hwork
    | error fault d =>
      obtain ⟨log, hmade⟩ := compile_of_error convert hrun
      rw [hrun] at hwork
      rw [hmade]
      exact hwork

end

/-- A page is unreadable only because its file is, and for the same reason. -/
theorem read_of_unreadable {c : Compiler} {convert : Converter} {read : File.Reader} {path : Text}
    {convertScripts final : Bool} {f : File.ReadFault}
    (h : (c.compileFile convert read path convertScripts final).result = .error (.unreadable f)) :
    read path = .error f := by
  rw [Compiler.compileFile] at h
  cases hread : read path with
  | error fault =>
    rw [hread] at h
    cases h
    rfl
  | ok source =>
    rw [hread] at h
    dsimp only [Compilation.respond] at h
    cases hmade :
      (c.compile convert read source { file := path, convertScripts, final }).result with
    | error fault =>
      rw [hmade] at h
      cases h
    | ok html =>
      rw [hmade] at h
      cases h

end OutlinePage.Page

namespace OutlinePage.Site

/-! ### How a build can end -/

/-- There is no text at the path, for a reason that is none of the disk: what it leads to is no
text, or it has a NUL in it. -/
inductive NoText (d : File.Disk) (path : File.Path) : File.ReadFault → Prop where
  | bytes {fault : Utf8.Fault} (h : d.readText path = .error (.undecodable fault)) :
    NoText d path (.undecodable fault)
  | nul (h : path.hasNul = true) : NoText d path (.refused ⟨.nul, path.toText⟩)

/-- The script is one of the site that the page at hand names. -/
structure NamedScript (s : Construction) (script : Text) : Prop where
  named : script ∈ s.compiler.scripts
  inside : isExternal script = false

/-- The path is where the page goes, or one of the scripts that it names. -/
def IsTarget (page : File.Path × File.Path) (s : Construction) (path : File.Path) : Prop :=
  path = page.2 ∨ ∃ script, NamedScript s script ∧ scriptTarget? page.2 script = some path

/-- The faults of a build that nobody takes care of, with the site on which they end it: there is no
text at a page or at a script that a page names, there is no name for the output of such a script,
or the path of an output has a NUL in it. -/
inductive Unforeseen (config : Config) : Fault → Construction → Prop where
  | page {page : File.Path × File.Path} {fault : File.ReadFault} {s : Construction}
    (mem : page ∈ config.pages.entries)
    (noText : NoText s.disk (File.Path.ofText (Route.normalize page.1.toText)) fault) :
    Unforeseen config (.unreadable fault) s
  | script {page : File.Path × File.Path} {script : Text} {fault : File.ReadFault}
    {s : Construction} (mem : page ∈ config.pages.entries) (named : NamedScript s script)
    (noText : NoText s.disk (page.1.parent.join script) fault) :
    Unforeseen config (.unreadable fault) s
  | nameless {page : File.Path × File.Path} {script : Text} {s : Construction}
    (mem : page ∈ config.pages.entries) (named : NamedScript s script)
    (noName : scriptTarget? page.2 script = none) :
    Unforeseen config (.nameless (page.2.parent.join script)) s
  | output {page : File.Path × File.Path} {path : File.Path} {fault : File.Fault}
    {s : Construction} (mem : page ∈ config.pages.entries) (target : IsTarget page s path)
    (nul : path.hasNul = true) (refusal : fault.refusal = .nul) :
    Unforeseen config (.unwritable fault) s

private theorem NoText.isOfDisk {d : File.Disk} {path : File.Path} {fault : File.ReadFault}
    (h : NoText d path fault) : Fault.isOfDisk fault = false := by
  cases h <;> rfl

private theorem Unforeseen.isExpected {config : Config} {f : Fault} {s : Construction}
    (h : Unforeseen config f s) : f.isExpected = false := by
  cases h with
  | page _ noText => exact noText.isOfDisk
  | script _ _ noText => exact noText.isOfDisk
  | nameless => rfl
  | output _ _ _ refusal => simp [Fault.isExpected, refusal]

private theorem Fault.isExpected_of_isUnfinished {f : Fault} (h : f.isUnfinished = true) :
    f.isExpected = false := by
  cases f with
  | page fault =>
    cases fault with
    | unfinished => rfl
    | _ => cases h
  | _ => cases h

/-- Work that has ended on a site of the given kind, with an expected fault, or with an unforeseen
one, or that has not come to an end. -/
def EndsSoundly (config : Config) (good : Construction → Prop) {α : Type} :
    EStateM.Result Fault Construction α → Prop
  | .ok _ s => good s
  | .error f s => f.isExpected = true ∨ Unforeseen config f s ∨ f.isUnfinished = true

/-- A site whose script service never crashes. -/
def Sound (s : Construction) : Prop := s.compiler.service.NeverCrashes

private theorem EndsSoundly.mono {config : Config} {good good' : Construction → Prop} {α : Type}
    {result : EStateM.Result Fault Construction α} (h : EndsSoundly config good result)
    (hgood : ∀ s, good s → good' s) : EndsSoundly config good' result := by
  cases result with
  | ok a s => exact hgood s h
  | error f s => exact h

/-- What each item of a list ends with, the whole list ends with. -/
theorem endsSoundly_forM {config : Config} {good : Construction → Prop} {α : Type}
    {work : α → Work Unit} {as : List α}
    (hwork : ∀ a ∈ as, ∀ s, good s → EndsSoundly config good ((work a).run s)) {s : Construction}
    (hs : good s) : EndsSoundly config good ((as.forM work).run s) := by
  induction as generalizing s with
  | nil => exact hs
  | cons a as ih =>
    have hfirst := hwork a List.mem_cons_self s hs
    rw [forM_cons_run]
    cases hrun : (work a).run s with
    | ok u s' =>
      rw [hrun] at hfirst
      exact ih (fun b hb => hwork b (List.mem_cons_of_mem a hb)) hfirst
    | error f s' =>
      rw [hrun] at hfirst
      exact hfirst

/-- Writing a file fails for a reason of the disk, or since the path has a NUL in it. -/
theorem writeFile_error {path : File.Path} {t : Text} {s s' : Construction} {f : Fault}
    (h : (writeFile path t).run s = .error f s') :
    s'.compiler = s.compiler ∧ (f.isExpected = true ∨
      path.hasNul = true ∧ ∃ fault, f = .unwritable fault ∧ fault.refusal = .nul) := by
  have hcompiler := (writeFile_keeps path t s).1
  rw [h] at hcompiler
  refine ⟨hcompiler, ?_⟩
  have hrefused {fault : File.Fault} (hnul : fault.refusal = .nul → path.hasNul = true) :
      Fault.isExpected (.unwritable fault) = true ∨ path.hasNul = true ∧
        ∃ fault', Fault.unwritable fault = .unwritable fault' ∧ fault'.refusal = .nul := by
    by_cases hfault : fault.refusal = .nul
    · exact .inr ⟨hnul hfault, fault, rfl, hfault⟩
    · exact .inl (bne_iff_ne.mpr hfault)
  rw [writeFile_run] at h
  cases hmake : s.disk.makeDirectories path.parent with
  | error fault d =>
    rw [hmake] at h
    cases h
    exact hrefused fun hnul =>
      File.Path.hasNul_of_parent (File.Disk.makeDirectories_nul hmake hnul)
  | ok u d =>
    rw [hmake] at h
    dsimp only at h
    cases hwrite : d.writeText path t with
    | error fault =>
      rw [hwrite] at h
      cases h
      exact hrefused (File.Disk.writeText_nul hwrite)
    | ok d' =>
      rw [hwrite] at h
      cases h

private theorem endsSoundly_writeFile {config : Config} {good : Construction → Prop}
    {s : Construction} (hgood : ∀ s', s'.compiler = s.compiler → good s')
    {page : File.Path × File.Path} (hpage : page ∈ config.pages.entries) {path : File.Path}
    (htarget : IsTarget page s path) (t : Text) :
    EndsSoundly config good ((writeFile path t).run s) := by
  cases hrun : (writeFile path t).run s with
  | ok u s' => exact hgood s' (writeFile_compiler hrun)
  | error f s' =>
    obtain ⟨hcompiler, hexpected | ⟨hnul, fault, rfl, hrefusal⟩⟩ := writeFile_error hrun
    · exact .inl hexpected
    · refine .inr (.inl (.output hpage (htarget.imp_right ?_) hnul hrefusal))
      rintro ⟨script, hscript, hpath⟩
      refine ⟨script, ⟨?_, hscript.inside⟩, hpath⟩
      rw [hcompiler]
      exact hscript.named

/-- If no text can be read at a path, the disk refuses it, or there is none. -/
theorem isOfDisk_or_noText {d : File.Disk} {path : File.Path} {f : File.ReadFault}
    (h : d.readText path = .error f) : Fault.isOfDisk f = true ∨ NoText d path f := by
  have hread := h
  rw [File.Disk.readText] at h
  cases hbytes : d.read path with
  | error r =>
    rw [hbytes] at h
    cases h
    by_cases hnul : r = .nul
    · subst hnul
      exact .inr (.nul (File.Disk.read_eq_nul_iff.mp hbytes))
    · exact .inl (bne_iff_ne.mpr hnul)
  | ok bytes =>
    rw [hbytes] at h
    dsimp only at h
    split at h
    · cases h
      exact .inr (.bytes hread)
    · cases h

private theorem endsSoundly_buildScript {config : Config} {page : File.Path × File.Path}
    (hpage : page ∈ config.pages.entries) {scripts : List Text} {script : Text}
    (hscript : script ∈ scripts) (s : Construction) (hs : Sound s ∧ s.compiler.scripts = scripts) :
    EndsSoundly config (fun s => Sound s ∧ s.compiler.scripts = scripts)
      ((buildScript page.1 page.2 script config).run s) := by
  obtain ⟨hsound, rfl⟩ := hs
  rw [buildScript_run, compileScript_run]
  cases hexternal : isExternal script with
  | true => exact ⟨hsound, rfl⟩
  | false =>
    rw [if_neg Bool.false_ne_true]
    cases htarget : scriptTarget? page.2 script with
    | none => exact .inr (.inl (.nameless hpage ⟨hscript, hexternal⟩ htarget))
    | some path =>
      dsimp only
      cases hread : s.disk.readText (page.1.parent.join script) with
      | error f =>
        rcases isOfDisk_or_noText hread with hdisk | hnone
        · exact .inl hdisk
        · exact .inr (.inl (.script hpage ⟨hscript, hexternal⟩ hnone))
      | ok code =>
        dsimp only
        obtain ⟨hanswer, hservice⟩ :=
          hsound.compile (scriptJob config (page.1.parent.join script) code)
        cases hmade : (s.compiler.service.compile
            (scriptJob config (page.1.parent.join script) code)).1 with
        | ok text =>
          refine endsSoundly_writeFile ?_ hpage (.inr ⟨script, ?_, htarget⟩) text
          · intro s' hs'
            rw [Sound, hs']
            exact ⟨hservice, rfl⟩
          · exact ⟨hscript, hexternal⟩
        | error f =>
          rw [hmade] at hanswer
          left
          cases f with
          | refused reason => rfl
          | notStarted => rfl
          | crashed => exact absurd rfl hanswer

private theorem endsSoundly_buildPage {config : Config} {page : File.Path × File.Path}
    (hpage : page ∈ config.pages.entries) (s : Construction) (hs : Sound s) :
    EndsSoundly config Sound ((buildPage config page).run s) := by
  have hcompiled : Sound (compiledSite config page s) :=
    Page.preserves_compileFile (fun service job h => (h.compile job).2) hs _ _ _ _ _
  rw [buildPage_run]
  cases hresult : (response config page s).result with
  | error f =>
    cases f with
    | page fault =>
      cases fault with
      | unfinished => exact .inr (.inr rfl)
      | _ => exact .inl rfl
    | unreadable f =>
      have hread : s.disk.reader page.1.toText = .error f := Page.read_of_unreadable hresult
      rcases isOfDisk_or_noText hread with hdisk | hnone
      · exact .inl hdisk
      · exact .inr (.inl (.page hpage hnone))
  | ok html =>
    have hwrite :
        EndsSoundly config Sound ((writeFile page.2 html).run (compiledSite config page s)) :=
      endsSoundly_writeFile (fun s' hs' => by rwa [Sound, hs']) hpage (.inl rfl) html
    dsimp only
    cases hrun : (writeFile page.2 html).run (compiledSite config page s) with
    | error f s' =>
      rw [hrun] at hwrite
      exact hwrite
    | ok u s' =>
      rw [hrun] at hwrite
      have hscripts : EndsSoundly config
          (fun t => Sound t ∧ t.compiler.scripts = s'.compiler.scripts)
          ((s'.compiler.scripts.forM fun script =>
            buildScript page.1 page.2 script config).run s') :=
        endsSoundly_forM (fun _ hscript => endsSoundly_buildScript hpage hscript) ⟨hwrite, rfl⟩
      exact hscripts.mono fun t ht => ht.1

private theorem endsSoundly_build (config : Config) {s : Construction} (hs : Sound s) :
    EndsSoundly config Sound ((build config).run s) :=
  endsSoundly_forM (fun _ hpage => endsSoundly_buildPage hpage) hs

/-- A site with these bytes in its files, and a script service that never crashes. -/
def siteOfBytes (files : List (Text × File.Bytes)) : Construction :=
  { siteOf [] with
    disk := edit {} (files.map fun file => ((File.Path.ofText file.1).parts, some file.2)) }

private theorem neverCrashes_siteOfBytes (files : List (Text × File.Bytes)) :
    (siteOfBytes files).compiler.service.NeverCrashes where
  load := by
    intro attempt h
    cases h
  loaded := by
    intro attempt tool h job
    cases h
    intro h
    cases h
  tool := by
    intro job h
    cases h

/-- The fault that some work has ended with. -/
def faultOf {α : Type} : EStateM.Result Fault Construction α → Option Fault
  | .ok .. => none
  | .error f _ => some f

-- A NUL in the path of an import leaves the page empty, and in the path of a script it goes on to
-- whoever asked for the build. A page that imports itself is not finished.
example :
    let rebuilt (outline : Text) := rebuild (configOf [("index.spl", "out/index.html")])
      ((siteOfBytes [("index.spl", Utf8.encode outline)]).within 3)
    (goodState (rebuilt "@import a\x00.spl\n")).map (·.disk.files.get? ["out", "index.html"]) =
        some (some []) ∧
      (faultOf (rebuilt "script(src=a\x00.ts)\n")).map (·.message) =
        some "embedded null byte".toList ∧
      (faultOf (rebuilt "@import index.spl\n")).map (·.isUnfinished) = some true := by
  decide +kernel

end OutlinePage.Site
