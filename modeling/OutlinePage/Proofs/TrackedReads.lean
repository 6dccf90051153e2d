import OutlinePage.Proofs.LeftScripts
import OutlinePage.Proofs.PageSteps
import OutlinePage.Proofs.ScriptAnswers
import OutlinePage.Proofs.StatefulWork

/-!
# What the work on a page depends on

The work on a page depends on what it reads and on what the script service answers. It is done twice
here: at two desks that differ in their logs and in how far their script services have come, and
with two stores that agree on the paths that the first run reads. No step of the work can tell them
apart. A path that cannot be read ends the work with a fault, for which no empty page can stand in;
only a path that is none, as it has a NUL in it, is taken for a mistake in the page.
-/

namespace OutlinePage.Page

/-! ### The same work twice -/

/-- The desks hold the same, apart from their logs, and their script services are among the given
ones. -/
structure SameDesk (P : Script.Service → Prop) (d d' : Desk) : Prop where
  components : d.components = d'.components
  reads : d.reads = d'.reads
  service : P d.scripts
  service' : P d'.scripts

/-- The work has ended in the same way at both desks. -/
inductive SameResult (P : Script.Service → Prop) {α : Type} :
    EStateM.Result Fault Desk α → EStateM.Result Fault Desk α → Prop where
  | ok (a : α) {d d' : Desk} (h : SameDesk P d d') : SameResult P (.ok a d) (.ok a d')
  | error (fault : Fault) {d d' : Desk} (h : SameDesk P d d') :
      SameResult P (.error fault d) (.error fault d')

/-- All paths that were read could be, apart from those with a NUL in them. -/
def ReadsWell (read : File.Reader) (d : Desk) : Prop :=
  ∀ path ∈ d.reads, ∀ fault, read path = .error fault → fault.isNul = true

/-- The reads went well, or the work has ended with a fault that says so. -/
def EndsHonestly (read : File.Reader) {α : Type} : EStateM.Result Fault Desk α → Prop
  | .ok _ d => ReadsWell read d
  | .error fault d => fault.isFatal = true ∨ ReadsWell read d

/-- The work, as it depends on the store, begun at the desk `d`. -/
structure TracksFrom (P : Script.Service → Prop) {α : Type} (x : File.Reader → Work α)
    (d : Desk) : Prop where
  /-- The desk keeps all paths that were read. -/
  grows : ∀ read, d.reads ⊆ (stateAfter ((x read).run d)).reads
  honest : ∀ read, ReadsWell read d → EndsHonestly read ((x read).run d)
  /-- With a store that agrees on these paths the work ends in the same way. -/
  same : ∀ {read read' : File.Reader} {d' : Desk}, SameDesk P d d' →
    (∀ path ∈ (stateAfter ((x read).run d)).reads, read' path = read path) →
    SameResult P ((x read).run d) ((x read').run d')

/-- The work depends on what it reads, wherever it is begun. -/
def Tracks (P : Script.Service → Prop) {α : Type} (x : File.Reader → Work α) : Prop :=
  ∀ d, TracksFrom P x d

section

variable {P : Script.Service → Prop} {α β : Type}

private theorem tracks_pure (a : α) : Tracks P fun _ => (pure a : Work α) := fun _ =>
  { grows := fun _ _ hpath => hpath
    honest := fun _ hd => hd
    same := fun hd _ => .ok a hd }

private theorem tracks_throw (fault : Fault) : Tracks P fun _ => (throw fault : Work α) := fun _ =>
  { grows := fun _ _ hpath => hpath
    honest := fun _ hd => .inr hd
    same := fun hd _ => .error fault hd }

private theorem Tracks.bind {x : File.Reader → Work α} {f : File.Reader → α → Work β}
    (hx : Tracks P x) (hf : ∀ a, Tracks P fun read => f read a) :
    Tracks P fun read => x read >>= f read := by
  intro d
  refine ⟨fun read => ?_, fun read hd => ?_, fun {read read' d'} hd hread => ?_⟩
  · have hgrows := (hx d).grows read
    rw [EStateM.run_bind]
    cases hrun : (x read).run d with
    | error fault d₁ =>
      rw [hrun] at hgrows
      exact hgrows
    | ok a d₁ =>
      rw [hrun] at hgrows
      exact List.Subset.trans hgrows ((hf a d₁).grows read)
  · have hhonest := (hx d).honest read hd
    rw [EStateM.run_bind]
    cases hrun : (x read).run d with
    | error fault d₁ =>
      rw [hrun] at hhonest
      exact hhonest
    | ok a d₁ =>
      rw [hrun] at hhonest
      exact (hf a d₁).honest read hhonest
  · have hsame : _ → SameResult P ((x read).run d) ((x read').run d') := (hx d).same hd
    rw [EStateM.run_bind] at hread ⊢
    rw [EStateM.run_bind]
    cases hrun : (x read).run d with
    | error fault d₁ =>
      rw [hrun] at hsame hread
      have hfirst := hsame hread
      generalize (x read').run d' = r' at hfirst ⊢
      cases hfirst with
      | error _ h₁ => exact .error fault h₁
    | ok a d₁ =>
      rw [hrun] at hsame hread
      have hfirst := hsame fun path hpath => hread path ((hf a d₁).grows read hpath)
      generalize (x read').run d' = r' at hfirst ⊢
      cases hfirst with
      | ok _ h₁ => exact (hf a d₁).same h₁ hread

/-! ### Pieces of work -/

private theorem tracks_log (f : Log → Log) :
    Tracks P fun _ => (modify fun d => { d with log := f d.log } : Work Unit) := fun _ =>
  { grows := fun _ _ hpath => hpath
    honest := fun _ hd => hd
    same := fun hd _ => .ok () ⟨hd.components, hd.reads, hd.service, hd.service'⟩ }

section

variable {s : Setting} {path : Text} (importer : Text) (d : Desk)

/-- Reading a path gives its text, and notes the path. -/
theorem fetch_of_ok {source : Text} (h : s.read path = .ok source) :
    (fetch s path importer).run d = .ok source { d with reads := d.reads ++ [path] } := by
  rw [fetch, EStateM.run_bind, h]
  rfl

/-- A path that cannot be read is noted all the same. -/
theorem fetch_of_error {fault : File.ReadFault} (h : s.read path = .error fault) :
    (fetch s path importer).run d =
      .error (.unreadable path importer fault) { d with reads := d.reads ++ [path] } := by
  rw [fetch, EStateM.run_bind, h]
  rfl

end

/-- Reading a path is where the store comes in. -/
theorem tracks_fetch (o : Options) (path importer : Text) :
    Tracks P fun read => fetch ⟨o, read⟩ path importer := by
  intro d
  have hafter (read : File.Reader) :
      (stateAfter ((fetch ⟨o, read⟩ path importer).run d)).reads = d.reads ++ [path] := by
    cases hpath : read path with
    | ok source => rw [fetch_of_ok importer d hpath, stateAfter]
    | error fault => rw [fetch_of_error importer d hpath, stateAfter]
  refine ⟨fun read => ?_, fun read hd => ?_, fun {read read' d'} hd hread => ?_⟩
  · rw [hafter]
    exact List.subset_append_left d.reads [path]
  · have hmore (hwell : ∀ fault, read path = .error fault → fault.isNul = true) :
        ReadsWell read { d with reads := d.reads ++ [path] } := by
      intro path' hpath'
      rcases List.mem_append.mp hpath' with hmem | hmem
      · exact hd path' hmem
      · rw [List.mem_singleton.mp hmem]
        exact hwell
    cases hpath : read path with
    | ok source =>
      rw [fetch_of_ok importer d hpath]
      refine hmore fun fault hfault => ?_
      rw [hpath] at hfault
      cases hfault
    | error fault =>
      rw [fetch_of_error importer d hpath]
      cases hnul : fault.isNul with
      | false => exact .inl (by simp [Fault.isFatal, hnul])
      | true =>
        refine .inr (hmore fun fault' hfault' => ?_)
        rw [hpath] at hfault'
        cases hfault'
        exact hnul
  · have hagree : read' path = read path := by
      refine hread path ?_
      rw [hafter]
      exact List.mem_append_right d.reads List.mem_cons_self
    have hdesk : SameDesk P { d with reads := d.reads ++ [path] }
        { d' with reads := d'.reads ++ [path] } :=
      ⟨hd.components, congrArg (· ++ [path]) hd.reads, hd.service, hd.service'⟩
    cases hpath : read path with
    | ok source =>
      rw [fetch_of_ok importer d hpath, fetch_of_ok importer d' (hagree.trans hpath)]
      exact .ok source hdesk
    | error fault =>
      rw [fetch_of_error importer d hpath, fetch_of_error importer d' (hagree.trans hpath)]
      exact .error _ hdesk

private theorem tracks_lookUp (name : Text) : Tracks P fun _ => lookUp name := by
  intro d
  refine ⟨fun _ _ hpath => hpath, fun _ hd => hd, fun {_ _ d'} hd _ => ?_⟩
  have hrun (d : Desk) : (lookUp name).run d = .ok (d.components.get? name) d := rfl
  rw [hrun, hrun, ← hd.components]
  exact .ok _ hd

private theorem tracks_register (definition : Element) : Tracks P fun _ => register definition := by
  intro d
  refine ⟨fun _ _ hpath => hpath, fun _ hd => hd, fun {_ _ d'} hd _ => .ok () ?_⟩
  exact ⟨congrArg (·.insert definition.name (template definition)) hd.components, hd.reads,
    hd.service, hd.service'⟩

section

variable {answer : Script.Job → Except Script.Fault Text} (hP : Script.Consistent answer P)

include hP

/-- Services that give the same answers compile a script in the same way. -/
theorem tracks_compileInline (o : Options) (t : Tag) (source : Text) :
    Tracks P fun read => compileInline ⟨o, read⟩ t source := by
  intro d
  have hrun (read : File.Reader) (d : Desk) := compileInline_run ⟨o, read⟩ t source d
  refine ⟨fun read => ?_, fun read hd => ?_, fun {read read' d'} hd _ => ?_⟩
  · rw [hrun]
    split <;> exact List.Subset.refl _
  · rw [hrun]
    split
    · exact hd
    · exact .inr hd
  · obtain ⟨hanswer, hservice⟩ := hP _ hd.service (jobOf o t source)
    obtain ⟨hanswer', hservice'⟩ := hP _ hd.service' (jobOf o t source)
    rw [hrun, hrun]
    dsimp only
    generalize d.scripts.compile (jobOf o t source) = made at hanswer hservice ⊢
    generalize d'.scripts.compile (jobOf o t source) = made' at hanswer' hservice' ⊢
    obtain ⟨result, scripts, log⟩ := made
    obtain ⟨result', scripts', log'⟩ := made'
    obtain rfl : result = result' := hanswer.trans hanswer'.symm
    cases result with
    | ok code => exact .ok code ⟨hd.components, hd.reads, hservice, hservice'⟩
    | error fault => exact .error _ ⟨hd.components, hd.reads, hservice, hservice'⟩

/-- No step of the work can tell the two runs apart. -/
theorem stepwise_tracks (o : Options) : Stepwise o fun _ x => Tracks P x where
  pure := tracks_pure
  bind := Tracks.bind
  mistaken error := tracks_throw (.mistaken error)
  log lines := tracks_log (· ++ lines)
  fetch := tracks_fetch o
  compileInline := tracks_compileInline hP o
  lookUp := tracks_lookUp
  register := tracks_register

private theorem tracks_compileWork (o : Options) (reach : Nat) (source : Text) :
    Tracks P fun read => compileWork ⟨o, read⟩ reach source :=
  (stepwise_tracks hP o).compileWork (tracks_throw .endless) (tracks_throw .unfinished) reach source

end

end

/-! ### The same request twice -/

private theorem compile_reads (c : Compiler) (convert : Converter) (read : File.Reader)
    (source : Text) (options : Options) : (c.compile convert read source options).reads =
      (stateAfter
        ((compileWork ⟨options, read⟩ c.reach source).run { scripts := c.service })).reads := by
  cases hrun : (compileWork ⟨options, read⟩ c.reach source).run { scripts := c.service } with
  | ok page d =>
    obtain ⟨log, hmade⟩ := compile_of_ok convert hrun
    rw [hmade]
    rfl
  | error fault d =>
    obtain ⟨log, hmade⟩ := compile_of_error convert hrun
    rw [hmade]
    rfl

/-- The responses say the same and were made with the same reads, and the compilers go on with the
same reach and with script services among the given ones. If the page was made, they keep the same
scripts. -/
structure SameResponse (P : Script.Service → Prop) (r r' : Response) : Prop where
  result : r.result = r'.result
  reads : r.reads = r'.reads
  reach : r.compiler.reach = r'.compiler.reach
  service : P r.compiler.service
  service' : P r'.compiler.service
  scripts : ∀ html, r.result = .ok html → r.compiler.scripts = r'.compiler.scripts

section

variable {P : Script.Service → Prop} {answer : Script.Job → Except Script.Fault Text}
  (hP : Script.Consistent answer P) {c c' : Compiler} (hc : P c.service) (hc' : P c'.service)
  (hreach : c.reach = c'.reach) {read read' : File.Reader}

include hP hc hc' hreach

/-- Compilers with the same reach, whose script services give the same answers, do the same work on
an outline with every store that agrees on the paths that are read. -/
theorem sameResult_compileWork (source : Text) (options : Options)
    (hread : ∀ path ∈ (stateAfter ((compileWork ⟨options, read⟩ c.reach source).run
      { scripts := c.service })).reads, read' path = read path) :
    SameResult P ((compileWork ⟨options, read⟩ c.reach source).run { scripts := c.service })
      ((compileWork ⟨options, read'⟩ c'.reach source).run { scripts := c'.service }) := by
  rw [← hreach]
  exact (tracks_compileWork hP options c.reach source _).same ⟨rfl, rfl, hc, hc'⟩ hread

private theorem sameResponse_compile (convert : Converter) (source : Text) (options : Options)
    (own : List Text)
    (hread : ∀ path ∈ (c.compile convert read source options).reads, read' path = read path) :
    SameResponse P ((c.compile convert read source options).respond own)
      ((c'.compile convert read' source options).respond own) := by
  rw [compile_reads] at hread
  have hresult := sameResult_compileWork hP hc hc' hreach source options hread
  generalize hrun : (compileWork ⟨options, read⟩ c.reach source).run { scripts := c.service } = r
    at hresult
  generalize hrun' :
    (compileWork ⟨options, read'⟩ c'.reach source).run { scripts := c'.service } = r' at hresult
  cases hresult with
  | ok page h =>
    obtain ⟨log, hmade⟩ := compile_of_ok convert hrun
    obtain ⟨log', hmade'⟩ := compile_of_ok convert hrun'
    rw [hmade, hmade']
    exact ⟨rfl, congrArg (own ++ ·) h.reads, hreach, h.service, h.service', fun _ _ => rfl⟩
  | error fault h =>
    obtain ⟨log, hmade⟩ := compile_of_error convert hrun
    obtain ⟨log', hmade'⟩ := compile_of_error convert hrun'
    rw [hmade, hmade']
    exact ⟨rfl, congrArg (own ++ ·) h.reads, hreach, h.service, h.service', fun _ _ => rfl⟩

/-- A compiler answers a request in the same way with every store that agrees on the paths that it
reads. -/
theorem sameResponse_serve (convert : Converter) (request : Request)
    (hread : ∀ path ∈ (c.serve convert read request).reads, read' path = read path) :
    SameResponse P (c.serve convert read request) (c'.serve convert read' request) := by
  cases request with
  | source source options =>
    exact sameResponse_compile hP hc hc' hreach convert source options [] hread
  | file path convertScripts final =>
    rw [Compiler.serve, Compiler.serve, Compiler.compileFile, Compiler.compileFile]
    rw [Compiler.serve, Compiler.compileFile] at hread
    cases hpath : read path with
    | error fault =>
      rw [hpath] at hread
      rw [hread path List.mem_cons_self, hpath]
      refine ⟨rfl, rfl, hreach, hc, hc', ?_⟩
      intro html hhtml
      cases hhtml
    | ok source =>
      rw [hpath] at hread
      rw [hread path List.mem_cons_self, hpath]
      exact sameResponse_compile hP hc hc' hreach convert source _ [path]
        fun path' hpath' => hread path' (List.mem_cons_of_mem path hpath')

end

/-- An outline for which something could not be read is refused, unless it was a path with a NUL in
it. -/
theorem compile_of_unread (c : Compiler) (convert : Converter) {read : File.Reader} {source : Text}
    {options : Options} {path : Text} (hpath : path ∈ (c.compile convert read source options).reads)
    {fault : File.ReadFault} (hfault : read path = .error fault) (hnul : fault.isNul = false) :
    ∃ fault, (c.compile convert read source options).result = .error fault := by
  -- What the script service does has no part in this.
  have hnone : Script.Consistent (fun _ => .ok []) fun _ => False := fun _ h => h.elim
  have hhonest := (tracks_compileWork hnone options c.reach source
    { scripts := c.service }).honest read (fun _ h => nomatch h)
  rw [compile_reads] at hpath
  have hunread {d : Desk} (hd : path ∈ d.reads) : ¬ ReadsWell read d := by
    intro hwell
    rw [hwell path hd fault hfault] at hnul
    cases hnul
  cases hrun : (compileWork ⟨options, read⟩ c.reach source).run { scripts := c.service } with
  | ok page d =>
    rw [hrun] at hhonest hpath
    exact absurd hhonest (hunread hpath)
  | error fault d =>
    rw [hrun] at hhonest hpath
    have hfatal : fault.isFatal = true := hhonest.resolve_right (hunread hpath)
    obtain ⟨log, hmade⟩ := compile_of_error convert hrun
    rw [hmade]
    exact ⟨fault, if_pos hfatal⟩

/-- A request for which something could not be read is refused, unless it was a path with a NUL in
it. -/
theorem serve_of_unread_path (c : Compiler) (convert : Converter) {read : File.Reader}
    {request : Request} {path : Text} (hpath : path ∈ (c.serve convert read request).reads)
    {fault : File.ReadFault} (hfault : read path = .error fault) (hnul : fault.isNul = false) :
    ∃ refusal, (c.serve convert read request).result = .error refusal := by
  have hcompile {source : Text} {options : Options} {own : List Text}
      (h : path ∈ (c.compile convert read source options).reads) :
      ∃ refusal, ((c.compile convert read source options).respond own).result = .error refusal := by
    obtain ⟨fault', hresult⟩ := compile_of_unread c convert h hfault hnul
    refine ⟨.page fault', ?_⟩
    rw [Compilation.respond, hresult]
    rfl
  cases request with
  | source source options => exact hcompile hpath
  | file own convertScripts final =>
    rw [Compiler.serve, Compiler.compileFile] at hpath ⊢
    cases hown : read own with
    | error fault' => exact ⟨.unreadable fault', rfl⟩
    | ok source =>
      rw [hown] at hpath
      rcases List.mem_cons.mp hpath with rfl | hpath
      · rw [hown] at hfault
        cases hfault
      · exact hcompile hpath

end OutlinePage.Page
