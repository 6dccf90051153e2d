import OutlinePage.Proofs.BuildOutputs
import OutlinePage.Proofs.ScriptEndings
import OutlinePage.Proofs.TrackedReads

/-!
# Building twice

A build that does not write over what it reads leaves its inputs as they were, so a second build
finds the same inputs, makes the same outputs and changes nothing. The second run goes along with
the first one here, on the disk that the first one leaves in the end: what is read is the same on
both, for no output goes there, and a directory that had to be made at first is there already. Only
a fault could tell them apart, since it may be due to a file that is written later; but a fault ends
the first run, and nothing is written after it.
-/

namespace OutlinePage.Site

/-! ### What a build reads -/

/-- The files that are read when these paths are tried. -/
def filesAt (d : File.Disk) (paths : List File.Path) : List File.Place :=
  paths.filterMap fun path => (d.read path).toOption.map fun _ => path.resolve d.here

/-- The files that are read to compile a page: its outline, and all that is imported. -/
def pageInputs (config : Config) (page : File.Path × File.Path) (s : Construction) :
    List File.Place :=
  filesAt s.disk ((response config page s).reads.map fun route =>
    File.Path.ofText (Route.normalize route))

/-- The file that is read to compile a script, if it gets so far. -/
def scriptInputs (page : File.Path × File.Path) (script : Text) (s : Construction) :
    List File.Place :=
  if isExternal script || (scriptTarget? page.2 script).isNone then []
  else filesAt s.disk [page.1.parent.join script]

/-- The files that are read for a page and its scripts. -/
def pageAndScriptInputs (config : Config) (page : File.Path × File.Path) (s : Construction) :
    List File.Place :=
  pageInputs config page s ++
    (scriptVisits config page s).flatMap fun v => scriptInputs page v.1 v.2

/-- The files that a build reads, in order. -/
def buildInputs (config : Config) (s : Construction) : List File.Place :=
  (pageVisits config s).flatMap fun v => pageAndScriptInputs config v.1 v.2

private theorem mem_filesAt {d : File.Disk} {paths : List File.Path} {path : File.Path}
    (hpath : path ∈ paths) {bytes : File.Bytes} (hread : d.read path = .ok bytes) :
    path.resolve d.here ∈ filesAt d paths := by
  refine List.mem_filterMap.mpr ⟨path, hpath, ?_⟩
  rw [hread]
  rfl

/-! ### What a build keeps -/

/-- The site `s'` goes on with the converter of `s` and a compiler of the same reach, and with a
script service of the given ones. -/
structure Keeps (P : Script.Service → Prop) (s s' : Construction) : Prop where
  convert : s'.convert = s.convert
  reach : s'.compiler.reach = s.compiler.reach
  service : P s.compiler.service → P s'.compiler.service

section

variable {P : Script.Service → Prop} {answer : Script.Job → Except Script.Fault Text}

private theorem Keeps.refl (s : Construction) : Keeps P s s := ⟨rfl, rfl, id⟩

private theorem Keeps.trans {s s' s'' : Construction} (h : Keeps P s s') (h' : Keeps P s' s'') :
    Keeps P s s'' :=
  ⟨h'.convert.trans h.convert, h'.reach.trans h.reach, fun hs => h'.service (h.service hs)⟩

private theorem keeps_writeFile (path : File.Path) (t : Text) (s : Construction) :
    Keeps P s (stateAfter ((writeFile path t).run s)) := by
  obtain ⟨hcompiler, hconvert⟩ := writeFile_keeps path t s
  refine ⟨hconvert, congrArg (·.reach) hcompiler, fun hs => ?_⟩
  rw [hcompiler]
  exact hs

/-- Going through a list keeps what each of its items keeps. -/
theorem keeps_forM {α : Type} {work : α → Work Unit}
    (hwork : ∀ a s, Keeps P s (stateAfter ((work a).run s))) (as : List α) (s : Construction) :
    Keeps P s (stateAfter ((as.forM work).run s)) :=
  @forM_induction _ _ _ work Output (fun _ _ => []) (fun s _ s' => Keeps P s s') .refl .trans hwork
    as s

variable (hP : Script.Consistent answer P)

include hP

private theorem keeps_compileScript (config : Config) (page : File.Path × File.Path) (script : Text)
    (s : Construction) :
    Keeps P s (stateAfter ((compileScript page.1 page.2 script config).run s)) := by
  rw [compileScript_run]
  split
  · exact .refl s
  · cases scriptTarget? page.2 script with
    | none => exact .refl s
    | some path =>
      dsimp only
      cases s.disk.readText (page.1.parent.join script) with
      | error f => exact .refl s
      | ok code =>
        dsimp only
        split <;> exact ⟨rfl, rfl, fun hs => (hP _ hs _).2⟩

private theorem keeps_buildScript (config : Config) (page : File.Path × File.Path) (script : Text)
    (s : Construction) :
    Keeps P s (stateAfter ((buildScript page.1 page.2 script config).run s)) := by
  have hcompile := keeps_compileScript hP config page script s
  rw [buildScript_run]
  cases hrun : (compileScript page.1 page.2 script config).run s with
  | error f s' =>
    rw [hrun] at hcompile
    exact hcompile
  | ok o s' =>
    rw [hrun] at hcompile
    cases o with
    | none => exact hcompile
    | some o => exact hcompile.trans (keeps_writeFile o.path o.text s')

private theorem keeps_compiledSite (config : Config) (page : File.Path × File.Path)
    (s : Construction) :
    Keeps P s (compiledSite config page s) :=
  let request : Page.Request := .file page.1.toText config.convertScripts config.final
  ⟨rfl, Page.serve_reach s.compiler s.convert s.disk.reader request, fun hs =>
    (Page.sameResponse_serve hP hs hs rfl s.convert request fun _ _ => rfl).service⟩

private theorem keeps_buildPage (config : Config) (page : File.Path × File.Path)
    (s : Construction) :
    Keeps P s (stateAfter ((buildPage config page).run s)) := by
  have hcompiled := keeps_compiledSite hP config page s
  rw [buildPage_run]
  cases (response config page s).result with
  | error f => exact hcompiled
  | ok html =>
    have hpage := hcompiled.trans (keeps_writeFile page.2 html (compiledSite config page s))
    dsimp only
    cases hwrite : (writeFile page.2 html).run (compiledSite config page s) with
    | error f s' =>
      rw [hwrite] at hpage
      exact hpage
    | ok u s' =>
      rw [hwrite] at hpage
      exact hpage.trans (keeps_forM (keeps_buildScript hP config page) s'.compiler.scripts s')

private theorem keeps_build (config : Config) (s : Construction) :
    Keeps P s (stateAfter ((build config).run s)) :=
  keeps_forM (keeps_buildPage hP config) config.pages.entries s

end

/-! ### The second run beside the first -/

/-- The disk `d'` is what becomes of `d` when files are written at some of these places. -/
def Later (places : List File.Place) (d d' : File.Disk) : Prop :=
  ∃ written, d.Becomes written d' ∧ ∀ entry ∈ written, entry.1 ∈ places

/-- The first run has come to `s` and the second one to `t`. The disk on which the first run ends is
`last`, and it writes at the given places only. -/
structure Again (places : List File.Place) (last : File.Disk) (P : Script.Service → Prop)
    (s t : Construction) : Prop where
  later : Later places s.disk last
  alike : last.Alike t.disk
  same : ∀ q ∉ places, t.disk.files.get? q = last.files.get? q
  convert : t.convert = s.convert
  reach : s.compiler.reach = t.compiler.reach
  service : P s.compiler.service
  service' : P t.compiler.service

/-- The first run goes on to the disk `last`. A fault ends it there. -/
def Leads (places : List File.Place) (last : File.Disk) {α : Type} :
    EStateM.Result Fault Construction α → Prop
  | .ok _ s => Later places s.disk last
  | .error _ s => s.disk = last

/-- Both runs have ended with a fault, or neither has. -/
inductive SameEnd (places : List File.Place) (last : File.Disk) (P : Script.Service → Prop)
    {α : Type} :
    EStateM.Result Fault Construction α → EStateM.Result Fault Construction α → Prop where
  | ok (a : α) {s t : Construction} (h : Again places last P s t) :
      SameEnd places last P (.ok a s) (.ok a t)
  | error {f f' : Fault} {s t : Construction} : SameEnd places last P (.error f s) (.error f' t)

/-- In the second run the work has the same outputs as in the first, if its inputs are nowhere among
the places where the first run writes. -/
def Repeats (places : List File.Place) (last : File.Disk) (P : Script.Service → Prop) {α : Type}
    (work : Work α) (outputs : Construction → List Output)
    (inputs : Construction → List File.Place) : Prop :=
  ∀ ⦃s t⦄, Again places last P s t → (∀ q ∈ inputs s, q ∉ places) →
    (∀ o ∈ outputs s, o.path.resolve last.here ∈ places) → Leads places last (work.run s) →
    outputs t = outputs s ∧ SameEnd places last P (work.run s) (work.run t)

section

variable {places : List File.Place} {last : File.Disk} {P : Script.Service → Prop}

/-- Before its outputs were written, the first run was on its way to the same disk. -/
theorem Leads.later {α : Type} {s : Construction} {r : EStateM.Result Fault Construction α}
    (h : Leads places last r) {outputs : List Output} (hwrote : Wrote s outputs (stateAfter r))
    (houtputs : ∀ o ∈ outputs, o.path.resolve last.here ∈ places) : Later places s.disk last := by
  have hafter : Later places (stateAfter r).disk last := by
    cases r with
    | ok a s' => exact h
    | error f s' =>
      refine ⟨[], ?_, fun _ hentry => absurd hentry List.not_mem_nil⟩
      rw [stateAfter, show s'.disk = last from h]
      exact .refl last
  obtain ⟨written, hbecomes, hwritten⟩ := hafter
  refine ⟨_, File.Disk.Becomes.trans hwrote hbecomes, ?_⟩
  intro entry hentry
  rcases List.mem_append.mp hentry with hmem | hmem
  · obtain ⟨o, ho, rfl⟩ := List.mem_map.mp hmem
    have hplace := houtputs o ho
    rw [hbecomes.here, hwrote.here] at hplace
    exact hplace
  · exact hwritten entry hmem

/-- What the first run reads is the same for the second. A path with a NUL in it cannot be read in
either. -/
theorem Again.read {s t : Construction} (h : Again places last P s t) {path : File.Path}
    (hplace : ∀ bytes, s.disk.read path = .ok bytes → path.resolve s.disk.here ∉ places)
    (hfault : ∀ r, s.disk.read path = .error r → r ≠ .nul → s.disk = last) :
    t.disk.read path = s.disk.read path := by
  cases hread : s.disk.read path with
  | error r =>
    by_cases hnul : r = .nul
    · subst hnul
      exact File.Disk.read_eq_nul_iff.mpr (File.Disk.read_eq_nul_iff.mp hread)
    · -- The first run ends with this fault, so what stands in the way stays until the second one.
      have halike := h.alike
      rw [← hfault r hread hnul] at halike
      exact halike.read_error hread
  | ok bytes =>
    have hoff := hplace bytes hread
    obtain ⟨place, hlocate, hnone, hget⟩ := File.Disk.read_eq_ok.mp hread
    obtain rfl := File.Disk.locate_eq_ok hlocate
    obtain ⟨written, hbecomes, hwritten⟩ := h.later
    have hfile : s.disk.files.contains (path.resolve s.disk.here) = true := by
      rw [Table.contains, hget]
      rfl
    have hkeys : path.resolve s.disk.here ∉ written.map (·.1) := by
      intro hmem
      obtain ⟨entry, hentry, hplace⟩ := List.mem_map.mp hmem
      exact hoff (hplace ▸ hwritten entry hentry)
    refine File.Disk.read_eq_ok.mpr ⟨path.resolve s.disk.here, ?_, ?_, ?_⟩
    · exact (h.alike.locate path).trans (hbecomes.locate hlocate)
    · exact (h.alike.hasDirectory _).trans (hbecomes.hasDirectory_of_file hfile hnone)
    · rw [h.same _ hoff, hbecomes.files, Table.get?_union_of_not_mem hkeys, hget]

/-- The second run writes once more what the first one has written. -/
theorem Again.write {s t s' t' : Construction} (h : Again places last P s t) {q : File.Place}
    {bytes : File.Bytes} (hlater : Later places s'.disk last)
    (hdisk : t'.disk = { t.disk with files := t.disk.files.insert q bytes })
    (hfile : last.files.contains q = true) (hplace : q ∈ places)
    (hs : s'.compiler = s.compiler ∧ s'.convert = s.convert)
    (ht : t'.compiler = t.compiler ∧ t'.convert = t.convert) : Again places last P s' t' := by
  refine ⟨hlater, ?_, ?_, ?_, ?_, ?_, ?_⟩
  · rw [hdisk]
    refine ⟨h.alike.here, h.alike.hasDirectory, ?_⟩
    intro q'
    rw [Table.contains, Table.get?_insert]
    split
    · next hq =>
      rw [← hq]
      exact hfile.symm
    · exact h.alike.contains q'
  · intro q' hq'
    have hne : q ≠ q' := by
      rintro rfl
      exact hq' hplace
    rw [hdisk, Table.get?_insert_of_ne hne]
    exact h.same q' hq'
  · rw [hs.2, ht.2]
    exact h.convert
  · rw [hs.1, ht.1]
    exact h.reach
  · rw [hs.1]
    exact h.service
  · rw [ht.1]
    exact h.service'

private theorem repeats_writeFile (o : Output) :
    Repeats places last P (writeFile o.path o.text) (written o) fun _ => [] := by
  intro s t h _ houtputs hleads
  rw [written] at houtputs
  rw [written, written]
  rw [writeFile_run] at houtputs hleads ⊢
  rw [writeFile_run]
  cases hmake : s.disk.makeDirectories o.path.parent with
  | error f d =>
    rw [hmake] at hleads
    obtain rfl : d = last := hleads
    obtain ⟨f', d', hmake'⟩ :=
      (h.alike.obstructed (File.Disk.makeDirectories_error hmake).2).makeDirectories
    rw [hmake']
    exact ⟨rfl, .error⟩
  | ok u d =>
    obtain ⟨-, hdirectory⟩ := File.Disk.makeDirectories_ok hmake
    rw [hmake] at houtputs hleads
    dsimp only at houtputs hleads ⊢
    cases hwrite : d.writeText o.path o.text with
    | error f =>
      rw [hwrite] at hleads
      obtain rfl : d = last := hleads
      rw [File.Disk.makeDirectories_of_isDirectory (h.alike.isDirectory hdirectory)]
      dsimp only
      rw [h.alike.writeText_error hwrite]
      exact ⟨rfl, .error⟩
    | ok d' =>
      rw [hwrite] at houtputs hleads
      obtain ⟨later, hbecomes, hlater⟩ := hleads
      obtain ⟨hlocate, -, hwrote⟩ := File.Disk.writeText_ok hwrite
      have hall := hwrote.trans hbecomes
      have hfile := hall.contains_of_mem (List.mem_append_left later List.mem_cons_self)
      have hnone := hall.free _ (List.mem_append_left later List.mem_cons_self)
      have hplace : o.path.resolve d.here ∈ places := by
        rw [← hall.here]
        exact houtputs o List.mem_cons_self
      rw [File.Disk.makeDirectories_of_isDirectory
        (h.alike.isDirectory (hall.isDirectory hdirectory))]
      dsimp only
      rw [File.Disk.writeText_of_locate ((h.alike.locate o.path).trans (hall.locate hlocate))
        ((h.alike.hasDirectory _).trans hnone) o.text]
      exact ⟨rfl, .ok () (h.write ⟨later, hbecomes, hlater⟩ rfl hfile hplace ⟨rfl, rfl⟩ ⟨rfl, rfl⟩)⟩

/-- Work that goes through a list is repeated if the work on each item is. -/
theorem repeats_forM {α : Type} {work : α → Work Unit} {outputs : α → Construction → List Output}
    {inputs : α → Construction → List File.Place}
    (hwork : ∀ a, Repeats places last P (work a) (outputs a) (inputs a))
    (hwrote : ∀ a s, Wrote s (outputs a s) (stateAfter ((work a).run s))) (as : List α) :
    Repeats places last P (as.forM work)
      (fun s => (visits work as s).flatMap fun v => outputs v.1 v.2)
      (fun s => (visits work as s).flatMap fun v => inputs v.1 v.2) := by
  induction as with
  | nil => exact fun s t h _ _ _ => ⟨rfl, .ok () h⟩
  | cons a as ih =>
    intro s t h hinputs houtputs hleads
    rw [forM_cons_run] at hleads ⊢
    rw [forM_cons_run]
    simp only [visits, List.flatMap_cons, List.forall_mem_append] at hinputs houtputs ⊢
    cases hrun : (work a).run s with
    | error f s₁ =>
      rw [hrun] at hleads
      obtain ⟨hfirst, hend⟩ := hwork a h hinputs.1 houtputs.1 (by rw [hrun]; exact hleads)
      rw [hrun] at hend
      generalize (work a).run t = r at hend ⊢
      cases hend with
      | error =>
        rw [hfirst]
        exact ⟨rfl, .error⟩
    | ok u s₁ =>
      rw [hrun] at hleads hinputs houtputs
      -- The last disk is known for the whole list, so it is traced back over the other items.
      have hrest : Later places s₁.disk last := Leads.later hleads
        (forM_induction (fun _ => wrote_of_disk_eq rfl) Wrote.trans hwrote as s₁) houtputs.2
      obtain ⟨hfirst, hend⟩ := hwork a h hinputs.1 houtputs.1 (by rw [hrun]; exact hrest)
      rw [hrun] at hend
      generalize (work a).run t = r at hend ⊢
      cases hend with
      | ok _ h₁ =>
        obtain ⟨hothers, hend⟩ := ih h₁ hinputs.2 houtputs.2 hleads
        rw [hfirst]
        exact ⟨congrArg (outputs a s ++ ·) hothers, hend⟩

variable {answer : Script.Job → Except Script.Fault Text} (hP : Script.Consistent answer P)

include hP

private theorem repeats_compileScript (config : Config) (page : File.Path × File.Path)
    (script : Text) :
    Repeats places last P (compileScript page.1 page.2 script config) (fun _ => [])
      (scriptInputs page script) := by
  intro s t h hinputs _ hleads
  refine ⟨rfl, ?_⟩
  rw [compileScript_run] at hleads ⊢
  rw [compileScript_run]
  cases hexternal : isExternal script with
  | true => exact .ok none h
  | false =>
    cases htarget : scriptTarget? page.2 script with
    | none => exact .error
    | some path =>
      rw [hexternal, htarget] at hleads
      simp only [Bool.false_eq_true, if_false] at hleads ⊢
      have hread : t.disk.readText (page.1.parent.join script) =
          s.disk.readText (page.1.parent.join script) := by
        refine File.Disk.readText_congr (h.read ?_ ?_)
        · intro bytes hbytes
          refine hinputs _ ?_
          rw [scriptInputs, hexternal, htarget]
          exact mem_filesAt List.mem_cons_self hbytes
        · intro r hr _
          rw [File.Disk.readText, hr] at hleads
          exact hleads
      rw [hread]
      cases hcode : s.disk.readText (page.1.parent.join script) with
      | error f => exact .error
      | ok code =>
        rw [hcode] at hleads
        obtain ⟨hanswer, hservice⟩ := hP _ h.service
          (scriptJob config (page.1.parent.join script) code)
        obtain ⟨hanswer', hservice'⟩ := hP _ h.service'
          (scriptJob config (page.1.parent.join script) code)
        dsimp only at hleads ⊢
        rw [hanswer] at hleads
        rw [hanswer, hanswer']
        cases answer (scriptJob config (page.1.parent.join script) code) with
        | error f => exact .error
        | ok text =>
          exact .ok _ ⟨h.later, h.alike, h.same, h.convert, h.reach, hservice, hservice'⟩

private theorem repeats_buildScript (config : Config) (page : File.Path × File.Path)
    (script : Text) :
    Repeats places last P (buildScript page.1 page.2 script config)
      (scriptOutputs config page script) (scriptInputs page script) := by
  intro s t h hinputs houtputs hleads
  have hcompile := repeats_compileScript hP config page script h hinputs
    (fun _ ho => absurd ho List.not_mem_nil)
  rw [scriptOutputs] at houtputs
  rw [buildScript_run] at hleads ⊢
  rw [buildScript_run, scriptOutputs, scriptOutputs]
  cases hrun : (compileScript page.1 page.2 script config).run s with
  | error f s₁ =>
    rw [hrun] at hleads hcompile
    obtain ⟨-, hend⟩ := hcompile hleads
    generalize (compileScript page.1 page.2 script config).run t = r at hend ⊢
    cases hend with
    | error => exact ⟨rfl, .error⟩
  | ok o s₁ =>
    rw [hrun] at hleads hcompile houtputs
    cases o with
    | none =>
      obtain ⟨-, hend⟩ := hcompile hleads
      generalize (compileScript page.1 page.2 script config).run t = r at hend ⊢
      cases hend with
      | ok _ h₁ => exact ⟨rfl, .ok () h₁⟩
    | some o =>
      obtain ⟨-, hend⟩ := hcompile (Leads.later hleads (wrote_writeFile o s₁) houtputs)
      generalize (compileScript page.1 page.2 script config).run t = r at hend ⊢
      cases hend with
      | ok _ h₁ =>
        exact repeats_writeFile o h₁ (fun _ hq => absurd hq List.not_mem_nil) houtputs hleads

/-- A page is compiled in the second run as in the first. -/
theorem Again.response {s t : Construction} (h : Again places last P s t) {config : Config}
    {page : File.Path × File.Path} (hinputs : ∀ q ∈ pageInputs config page s, q ∉ places)
    (hfault : ∀ f, (Site.response config page s).result = .error f → s.disk = last) :
    Page.SameResponse P (Site.response config page s) (Site.response config page t) := by
  rw [Site.response, Site.response, h.convert]
  refine Page.sameResponse_serve hP h.service h.service' h.reach s.convert
    (.file page.1.toText config.convertScripts config.final) ?_
  intro route hroute
  refine File.Disk.readText_congr (h.read ?_ ?_)
  · intro bytes hbytes
    exact hinputs _ (mem_filesAt (List.mem_map_of_mem hroute) hbytes)
  · intro r hr hnul
    have hunread : s.disk.reader route =
        .error (.refused ⟨r, (File.Path.ofText (Route.normalize route)).toText⟩) := by
      rw [File.Disk.reader, File.Disk.readText, hr]
    obtain ⟨f, hf⟩ := Page.serve_of_unread_path s.compiler s.convert hroute hunread
      (beq_eq_false_iff_ne.mpr hnul)
    exact hfault f hf

private theorem repeats_buildPage (config : Config) (page : File.Path × File.Path) :
    Repeats places last P (buildPage config page) (pageOutputs config page)
      (pageAndScriptInputs config page) := by
  intro s t h hinputs houtputs hleads
  rw [pageAndScriptInputs, List.forall_mem_append] at hinputs
  rw [buildPage_run] at hleads ⊢
  rw [buildPage_run]
  have hresponse : Page.SameResponse P (response config page s) (response config page t) := by
    refine h.response hP hinputs.1 ?_
    intro f hf
    rw [hf] at hleads
    exact hleads
  rw [pageOutputs] at houtputs
  rw [pageOutputs, pageOutputs, scriptVisits, scriptVisits, ← hresponse.result]
  cases hresult : (response config page s).result with
  | error f => exact ⟨rfl, .error⟩
  | ok html =>
    rw [hresult] at hleads houtputs
    dsimp only at hleads houtputs ⊢
    rw [List.forall_mem_append] at houtputs
    have hcompiled :
        Again places last P (compiledSite config page s) (compiledSite config page t) :=
      ⟨h.later, h.alike, h.same, h.convert, hresponse.reach, hresponse.service,
        hresponse.service'⟩
    -- Before the page was compiled, the compilers could have listed different scripts.
    have hscripts : (compiledSite config page s).compiler.scripts =
        (compiledSite config page t).compiler.scripts := hresponse.scripts html hresult
    have hpage := repeats_writeFile ⟨page.2, html⟩ hcompiled
      (fun _ hq => absurd hq List.not_mem_nil) houtputs.1
    have hinputs₁ := hinputs.2
    rw [scriptVisits, hresult] at hinputs₁ houtputs
    dsimp only at hpage hinputs₁ houtputs
    cases hrun : (writeFile page.2 html).run (compiledSite config page s) with
    | error f s₁ =>
      rw [hrun] at hleads hpage
      obtain ⟨hwritten, hend⟩ := hpage hleads
      rw [hwritten]
      generalize (writeFile page.2 html).run (compiledSite config page t) = r at hend ⊢
      cases hend with
      | error => exact ⟨rfl, .error⟩
    | ok u s₁ =>
      rw [hrun] at hleads hpage hinputs₁ houtputs
      have hrest : Later places s₁.disk last := Leads.later hleads
        (forM_induction (fun _ => wrote_of_disk_eq rfl) Wrote.trans
          (wrote_buildScript config page) s₁.compiler.scripts s₁) houtputs.2
      obtain ⟨hwritten, hend⟩ := hpage hrest
      rw [hwritten]
      cases hrun' : (writeFile page.2 html).run (compiledSite config page t) with
      | error f' t₁ =>
        rw [hrun'] at hend
        cases hend
      | ok u' t₁ =>
        rw [hrun'] at hend
        cases hend with
        | ok _ h₁ =>
          have hsame : t₁.compiler.scripts = s₁.compiler.scripts := by
            rw [writeFile_compiler hrun, writeFile_compiler hrun', hscripts]
          dsimp only
          rw [hsame]
          obtain ⟨hothers, hend⟩ := repeats_forM (repeats_buildScript hP config page)
            (wrote_buildScript config page) s₁.compiler.scripts h₁ hinputs₁ houtputs.2 hleads
          exact ⟨congrArg (_ ++ ·) hothers, hend⟩

/-- A second build has the same outputs as the first. -/
theorem repeats_build (config : Config) :
    Repeats places last P (build config) (buildOutputs config) (buildInputs config) :=
  repeats_forM (repeats_buildPage hP config) (wrote_buildPage config) config.pages.entries

/-- A second build has the outputs of the first, if none of them went where an input is. -/
theorem buildOutputs_again {config : Config} {s : Construction} (hs : P s.compiler.service)
    (h : ∀ q ∈ buildInputs config s, ∀ o ∈ buildOutputs config s,
      o.path.resolve s.disk.here ≠ q) :
    buildOutputs config (stateAfter ((build config).run s)) = buildOutputs config s := by
  have hwrote := wrote_build config s
  have hkeeps := keeps_build hP config s
  have hplaces (o : Output) (ho : o ∈ buildOutputs config s) : o.path.resolve s.disk.here ∈
      (buildOutputs config s).map (·.path.resolve s.disk.here) := List.mem_map_of_mem ho
  have hagain : Again ((buildOutputs config s).map (·.path.resolve s.disk.here))
      (stateAfter ((build config).run s)).disk P s (stateAfter ((build config).run s)) := by
    refine ⟨⟨_, hwrote, ?_⟩, .refl _, fun _ _ => rfl, hkeeps.convert, hkeeps.reach.symm, hs,
      hkeeps.service hs⟩
    intro entry hentry
    obtain ⟨o, ho, rfl⟩ := List.mem_map.mp hentry
    exact hplaces o ho
  refine (repeats_build hP config hagain ?_ ?_ ?_).1
  · intro q hq hmem
    obtain ⟨o, ho, hplace⟩ := List.mem_map.mp hmem
    exact h q hq o ho hplace
  · rw [hwrote.here]
    exact hplaces
  · cases (build config).run s with
    | ok u s' => exact ⟨[], .refl _, fun _ hentry => absurd hentry List.not_mem_nil⟩
    | error f s' => rfl

end

/-! ### Inputs and outputs -/

/-- The name of a compiled script ends in `.js`. -/
theorem getLast?_scriptTarget {target path : File.Path} {script : Text}
    (h : scriptTarget? target script = some path) (here : File.Place) :
    ∃ stem : Text, (path.resolve here).getLast? = some (stem ++ ".js") := by
  rw [scriptTarget?, File.Path.withEnding] at h
  split at h
  · cases h
  · cases h
    refine ⟨File.Path.stem (target.parent.join script).name, ?_⟩
    rw [File.Path.resolve_child, File.Path.step, if_neg (js_ne_up _), List.getLast?_concat]

/-- A build whose pages go nowhere where it reads changes an input only if a script goes there, to a
name that ends in `.js`. If no script does, all inputs stay as they were, and a second build with a
script service that answers as before has the same outputs and changes no file. -/
theorem build_keeps_inputs (config : Config) (s : Construction)
    (hpages : ∀ page ∈ config.pages.entries,
      page.2.resolve s.disk.here ∉ buildInputs config s) :
    let inputs := buildInputs config s
    let first := stateAfter ((build config).run s)
    let second := stateAfter ((build config).run first)
    let place (path : File.Path) := path.resolve s.disk.here
    (∀ q ∈ inputs, first.disk.files.get? q ≠ s.disk.files.get? q →
      ∃ v ∈ pageVisits config s, ∃ path ∈ scriptTargets config v.1 v.2, place path = q ∧
        ∃ stem : Text, q.getLast? = some (stem ++ ".js")) ∧
    ((∀ v ∈ pageVisits config s, ∀ path ∈ scriptTargets config v.1 v.2, place path ∉ inputs) →
      (∀ q ∈ inputs, first.disk.files.get? q = s.disk.files.get? q) ∧
      (s.compiler.service.Repeatable →
        buildOutputs config first = buildOutputs config s ∧
        ∀ q, second.disk.files.get? q = first.disk.files.get? q)) := by
  intro inputs first second place
  have hscript {q : File.Place} (hq : q ∈ inputs) {o : Output} (ho : o ∈ buildOutputs config s)
      (hplace : place o.path = q) :
      ∃ v ∈ pageVisits config s, o.path ∈ scriptTargets config v.1 v.2 := by
    obtain ⟨v, hv, htarget⟩ := exists_target ho
    refine ⟨v, hv, ?_⟩
    rw [targets] at htarget
    split at htarget
    · cases htarget
    · rcases List.mem_cons.mp htarget with hpage | hscript
      · have hmem := (visits_initial _ _).subset (List.mem_map_of_mem hv)
        rw [← hplace, hpage] at hq
        exact absurd hq (hpages v.1 hmem)
      · exact hscript
  refine ⟨?_, ?_⟩
  · intro q hq hchanged
    obtain ⟨o, ho, hplace⟩ : ∃ o ∈ buildOutputs config s, place o.path = q := by
      by_contra hnone
      exact hchanged (get?_after_build fun o ho hplace => hnone ⟨o, ho, hplace⟩)
    obtain ⟨v, hv, htarget⟩ := hscript hq ho hplace
    obtain ⟨script, -, hpath⟩ := List.mem_filterMap.mp htarget
    refine ⟨v, hv, o.path, htarget, hplace, ?_⟩
    rw [← hplace]
    exact getLast?_scriptTarget hpath s.disk.here
  · intro hscripts
    have hapart (q : File.Place) (hq : q ∈ inputs) (o : Output) (ho : o ∈ buildOutputs config s) :
        place o.path ≠ q := by
      intro hplace
      obtain ⟨v, hv, htarget⟩ := hscript hq ho hplace
      exact hscripts v hv o.path htarget (hplace ▸ hq)
    refine ⟨fun q hq => get?_after_build (hapart q hq), ?_⟩
    intro hrepeatable
    have houtputs : buildOutputs config first = buildOutputs config s :=
      buildOutputs_again (Script.consistent_after hrepeatable) ⟨[], rfl⟩ hapart
    refine ⟨houtputs, ?_⟩
    intro q
    have hfirst := wrote_build config s
    have hsecond := (wrote_build config first).files
    rw [houtputs, hfirst.here] at hsecond
    rw [hsecond, hfirst.files]
    exact Table.get?_union_union _ _ q

/-- A site with two pages that share a part, one of which names a script. -/
def sharedSite : Construction :=
  siteOf [("index.spl", "@import part.spl\nscript(src=app.ts)\n"), ("part.spl", "p hi\n"),
    ("about.spl", "@import part.spl\n"), ("app.ts", "a()"), ("out/index.html", "old")]

/-- The pages of the site go into another directory. -/
def sharedConfig : Config :=
  configOf [("index.spl", "out/index.html"), ("about.spl", "out/about.html")]

/-- All inputs of this site are kept, also the part that two pages share, and a second build changes
nothing. -/
theorem build_keeps_inputs_at_shared_part :
    let first := stateAfter ((build sharedConfig).run sharedSite)
    let second := stateAfter ((build sharedConfig).run first)
    buildInputs sharedConfig sharedSite = [["index.spl".toList], ["part.spl".toList],
      ["app.ts".toList], ["about.spl".toList], ["part.spl".toList]] ∧
    (buildOutputs sharedConfig sharedSite).map (·.path.parts) =
      [["out".toList, "index.html".toList], ["out".toList, "app.js".toList],
        ["out".toList, "about.html".toList]] ∧
    (∀ q ∈ buildInputs sharedConfig sharedSite,
      first.disk.files.get? q = sharedSite.disk.files.get? q) ∧
    ∀ q, second.disk.files.get? q = first.disk.files.get? q := by
  intro first second
  have hrepeatable : sharedSite.compiler.service.Repeatable :=
    (Script.steady_new fun _ => rfl).repeatable
  obtain ⟨-, hkept⟩ := build_keeps_inputs sharedConfig sharedSite (by decide +kernel)
  obtain ⟨hinputs, hagain⟩ := hkept (by decide +kernel)
  exact ⟨by decide +kernel, by decide +kernel, hinputs, (hagain hrepeatable).2⟩

/-- The page goes next to its outline, where the script is. The script is read and the compiled one
is written over it, so that a second build compiles it once more. -/
theorem script_overwritten_at_same_directory :
    let config := configOf [("index.spl", "index.html")]
    let s := siteOf [("index.spl", "script(src=app.js)\n"), ("app.js", "a()")]
    let first := stateAfter ((build config).run s)
    let second := stateAfter ((build config).run first)
    buildInputs config s = [["index.spl".toList], ["app.js".toList]] ∧
      config.pages.entries.map (·.2.resolve s.disk.here) = [["index.html".toList]] ∧
      s.disk.files.get? ["app.js"] = some (Utf8.encode "a()") ∧
      first.disk.files.get? ["app.js"] = some (Utf8.encode "/**/a()") ∧
      second.disk.files.get? ["app.js"] = some (Utf8.encode "/**//**/a()") := by
  decide +kernel

end OutlinePage.Site
