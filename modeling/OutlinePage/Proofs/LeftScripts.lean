import OutlinePage.Page.Compile
import OutlinePage.Proofs.HoistedScope

/-!
# The scripts that a compiler is left with

After a request a compiler keeps the external scripts of the page that it has put together. It does
so before the page is written, so they stay where the converter gives up and the page is left empty.
Every other failure leaves none, and an outline that cannot be read leaves those of the request
before.
-/

namespace OutlinePage.Page

/-! ### Requests -/

/-- The outline that is to be compiled, with its options, unless it cannot be read. -/
def Request.outline? (read : File.Reader) : Request → Option (Text × Options)
  | .source text options => some (text, options)
  | .file path convertScripts final =>
    match read path with
    | .ok text => some (text, { file := path, convertScripts, final })
    | .error _ => none

/-- The compiler after some requests, each made with the store as it is then. -/
def Compiler.after (c : Compiler) (convert : Converter) (history : List (File.Reader × Request)) :
    Compiler :=
  history.foldl (fun c (read, request) => (c.serve convert read request).compiler) c

/-- The page that is put together for a request, if all goes well until then. -/
def Compiler.page? (c : Compiler) (read : File.Reader) (request : Request) : Option Assembled :=
  (request.outline? read).bind fun outline =>
    (compileWork ⟨outline.2, read⟩ c.reach outline.1).run' { scripts := c.service }

/-- The converter gives up on one of the texts. -/
def GivesUp (convert : Converter) (elements : List Element) : Prop :=
  ∃ text ∈ eachProse {} elements, convert text = none

/-- A compiler that could not make its page, or left it empty, keeps no scripts, and one that made
it keeps the scripts of that page. -/
structure KeepsPageScripts (page? : Option Assembled) (r : Response) : Prop where
  failed : ∀ fault, r.result = .error (.page fault) → r.compiler.scripts = []
  empty : r.result = .ok [] → r.compiler.scripts = []
  made : ∀ html, r.result = .ok html → html ≠ [] →
    ∃ page, page? = some page ∧ r.compiler.scripts = page.scripts

/-! ### Writing the page -/

private theorem render?_eq_none {convert : Converter} {elements : List Element} :
    render? convert {} elements = none ↔ GivesUp convert elements := by
  rw [render?, GivesUp]
  split
  · next hall =>
    simp only [List.all_eq_true, Option.isSome_iff_ne_none] at hall
    simp only [reduceCtorEq, false_iff]
    rintro ⟨text, hmem, hnone⟩
    exact hall text hmem hnone
  · next hall =>
    simp only [List.all_eq_true, Option.isSome_iff_ne_none] at hall
    simpa using hall

private theorem exists_openTag (vars : Variables) (t : Tag) : ∃ rest, openTag vars t = '<' ::
    rest :=
  ⟨_, rfl⟩

/-- What is written for some elements is not empty. -/
theorem render?_cons_ne_nil (convert : Converter) (e : Element) (es : List Element) :
    render? convert {} (e :: es) ≠ some [] := by
  rw [render?]
  split
  · obtain ⟨below, hfirst⟩ := exists_renderElement (fun t => (convert t).getD []) {} e
    obtain ⟨others, hjoin⟩ := exists_join_cons "\n"
      (renderElement (fun t => (convert t).getD []) {} e)
      (renderEach (fun t => (convert t).getD []) {} es)
    obtain ⟨rest, hopen⟩ := exists_openTag {} e.tag
    rw [render, renderEach, hjoin, hfirst, hopen]
    simp
  · simp

/-- A page that was put together begins with its doctype. -/
theorem compileWork_elements {s : Setting} {reach : Nat} {source : Text} {page : Assembled}
    {d d' : Desk} (h : (compileWork s reach source).run d = .ok page d') :
    ∃ rest, page.elements = doctypeElement s.options.file :: rest := by
  obtain ⟨elements, d₁, -, hassemble⟩ := run_bind_eq_ok.mp h
  obtain ⟨inHead, d₂, inBody, -, -, hpage⟩ := assemble_eq_ok hassemble
  exact ⟨_, hpage⟩

/-! ### One request -/

section

variable {c : Compiler} (convert : Converter) {read : File.Reader} {source : Text}
  {options : Options} {d : Desk}

/-- A page that cannot be put together is a fault or left empty, and names no scripts. -/
theorem compile_of_error {fault : Fault}
    (h : (compileWork ⟨options, read⟩ c.reach source).run { scripts := c.service } =
      .error fault d) :
    ∃ log, c.compile convert read source options =
      { result := if fault.isFatal then .error fault else .ok []
        compiler := { c with service := d.scripts, scripts := [] }, reads := d.reads, log } := by
  rw [Compiler.compile, h]
  dsimp only
  split
  · exact ⟨_, rfl⟩
  · exact ⟨_, rfl⟩

/-- A page that was put together is written or left empty, and its scripts are kept. -/
theorem compile_of_ok {page : Assembled}
    (h : (compileWork ⟨options, read⟩ c.reach source).run { scripts := c.service } = .ok page d) :
    ∃ log, c.compile convert read source options =
      { result := .ok ((render? convert {} page.elements).getD [])
        compiler := { c with service := d.scripts, scripts := page.scripts }
        reads := d.reads, log } := by
  rw [Compiler.compile, h]
  dsimp only
  cases render? convert {} page.elements with
  | some html => exact ⟨_, rfl⟩
  | none => exact ⟨_, rfl⟩

/-- A compiler keeps its reach. -/
theorem compile_reach : (c.compile convert read source options).compiler.reach = c.reach := by
  cases hrun : (compileWork ⟨options, read⟩ c.reach source).run { scripts := c.service } with
  | ok page d =>
    obtain ⟨log, hmade⟩ := compile_of_ok convert hrun
    rw [hmade]
  | error fault d =>
    obtain ⟨log, hmade⟩ := compile_of_error convert hrun
    rw [hmade]

end

/-- Whatever a compiler is asked for, it keeps its reach. -/
theorem serve_reach (c : Compiler) (convert : Converter) (read : File.Reader) (request : Request) :
    (c.serve convert read request).compiler.reach = c.reach := by
  cases request with
  | source source options => exact compile_reach convert
  | file path convertScripts final =>
    rw [Compiler.serve, Compiler.compileFile]
    cases read path with
    | error fault => rfl
    | ok source => exact compile_reach convert

/-- A request for a file that cannot be read changes nothing. -/
theorem serve_of_unread {read : File.Reader} {request : Request}
    (h : request.outline? read = none) :
    ∃ fault reads, ∀ (c : Compiler) (convert : Converter), c.serve convert read request =
      { result := .error (.unreadable fault), compiler := c, reads, log := [] } := by
  cases request with
  | source source options => cases h
  | file path convertScripts final =>
    rw [Request.outline?] at h
    cases hread : read path with
    | ok source =>
      rw [hread] at h
      cases h
    | error fault =>
      refine ⟨fault, [path], ?_⟩
      intro c convert
      rw [Compiler.serve, Compiler.compileFile, hread]

/-- Any other request has its outline compiled. -/
theorem serve_of_outline {read : File.Reader} {request : Request} {source : Text}
    {options : Options} (h : request.outline? read = some (source, options)) :
    ∃ reads, ∀ (c : Compiler) (convert : Converter), c.serve convert read request =
      (c.compile convert read source options).respond reads := by
  cases request with
  | source source' options' =>
    cases h
    exact ⟨[], fun c convert => rfl⟩
  | file path convertScripts final =>
    rw [Request.outline?] at h
    cases hread : read path with
    | error fault =>
      rw [hread] at h
      cases h
    | ok source' =>
      rw [hread] at h
      cases h
      refine ⟨[path], ?_⟩
      intro c convert
      rw [Compiler.serve, Compiler.compileFile, hread]

/-- The ways in which a request may end, each with the scripts that the compiler keeps. -/
inductive Serves (c : Compiler) (convert : Converter) (read : File.Reader) (request : Request)
    (r : Response) : Prop where
  /-- The outline cannot be read. -/
  | unread {fault : File.ReadFault} (houtline : (request.outline? read).isNone = true)
      (hpage : c.page? read request = none) (hresult : r.result = .error (.unreadable fault))
      (hscripts : r.compiler.scripts = c.scripts)
  /-- The page cannot be put together. -/
  | failed {fault : Fault} (houtline : (request.outline? read).isNone = false)
      (hpage : c.page? read request = none)
      (hresult : r.result = if fault.isFatal then .error (.page fault) else .ok [])
      (hscripts : r.compiler.scripts = [])
  /-- The page cannot be written. -/
  | gaveUp {page : Assembled} (houtline : (request.outline? read).isNone = false)
      (hpage : c.page? read request = some page) (hgives : GivesUp convert page.elements)
      (hresult : r.result = .ok []) (hscripts : r.compiler.scripts = page.scripts)
  /-- The page is written. -/
  | written {page : Assembled} {html : Text} (houtline : (request.outline? read).isNone = false)
      (hpage : c.page? read request = some page) (hgives : ¬ GivesUp convert page.elements)
      (hresult : r.result = .ok html) (hhtml : html ≠ [])
      (hscripts : r.compiler.scripts = page.scripts)

/-- A compiler meets a request in one of these ways. -/
theorem serves (c : Compiler) (convert : Converter) (read : File.Reader) (request : Request) :
    Serves c convert read request (c.serve convert read request) := by
  have hpage : c.page? read request = (request.outline? read).bind fun outline =>
      (compileWork ⟨outline.2, read⟩ c.reach outline.1).run' { scripts := c.service } := rfl
  cases houtline : request.outline? read with
  | none =>
    rw [houtline] at hpage
    obtain ⟨fault, reads, hserve⟩ := serve_of_unread houtline
    rw [hserve]
    exact .unread (by rw [houtline]; rfl) hpage rfl rfl
  | some outline =>
    obtain ⟨source, options⟩ := outline
    have hread : (request.outline? read).isNone = false := by rw [houtline]; rfl
    rw [houtline, Option.bind_some] at hpage
    delta EStateM.run' at hpage
    obtain ⟨reads, hserve⟩ := serve_of_outline houtline
    rw [hserve]
    cases hrun : (compileWork ⟨options, read⟩ c.reach source).run { scripts := c.service } with
    | error fault d =>
      rw [hrun] at hpage
      obtain ⟨log, hmade⟩ := compile_of_error convert hrun
      have hresult : ((c.compile convert read source options).respond reads).result =
          if fault.isFatal then .error (.page fault) else .ok [] := by
        rw [hmade, Compilation.respond]
        split <;> rfl
      refine .failed hread hpage hresult ?_
      rw [hmade]
      rfl
    | ok page d =>
      rw [hrun] at hpage
      obtain ⟨log, hmade⟩ := compile_of_ok convert hrun
      rw [hmade]
      cases hrender : render? convert {} page.elements with
      | none => exact .gaveUp hread hpage (render?_eq_none.mp hrender) rfl rfl
      | some html =>
        refine .written hread hpage ?_ (show _ = Except.ok html from rfl) ?_ rfl
        · rw [← render?_eq_none, hrender]
          simp
        · rintro rfl
          obtain ⟨rest, helements⟩ := compileWork_elements hrun
          rw [helements] at hrender
          exact render?_cons_ne_nil convert _ rest hrender

section

variable {c : Compiler} {convert : Converter} {read : File.Reader} {request : Request}
  {r : Response}

/-- The scripts that a compiler is left with are those of the page, if the outline could be read. -/
theorem Serves.scripts_eq (h : Serves c convert read request r) :
    r.compiler.scripts = if (request.outline? read).isNone then c.scripts
      else ((c.page? read request).map (·.scripts)).getD [] := by
  cases h with
  | unread houtline hpage hresult hscripts =>
    rw [houtline]
    exact hscripts
  | failed houtline hpage hresult hscripts =>
    rw [houtline, hpage]
    exact hscripts
  | gaveUp houtline hpage hgives hresult hscripts =>
    rw [houtline, hpage]
    exact hscripts
  | written houtline hpage hgives hresult hhtml hscripts =>
    rw [houtline, hpage]
    exact hscripts

private theorem Serves.keeps_iff (h : Serves c convert read request r) :
    KeepsPageScripts (c.page? read request) r ↔ ¬ ∃ page, c.page? read request = some page ∧
      GivesUp convert page.elements ∧ page.scripts ≠ [] := by
  cases h with
  | unread houtline hpage hresult hscripts =>
    refine iff_of_true ⟨?_, ?_, ?_⟩ ?_
    · simp [hresult]
    · simp [hresult]
    · simp [hresult]
    · simp [hpage]
  | failed houtline hpage hresult hscripts =>
    refine iff_of_true ⟨fun _ _ => hscripts, fun _ => hscripts, ?_⟩ ?_
    · intro html h hhtml
      rw [hresult] at h
      split at h
      · cases h
      · cases h
        exact absurd rfl hhtml
    · simp [hpage]
  | @gaveUp page houtline hpage hgives hresult hscripts =>
    constructor
    · rintro ⟨-, hempty, -⟩ ⟨page', hpage', -, hnamed⟩
      rw [hpage] at hpage'
      cases hpage'
      exact hnamed (hscripts.symm.trans (hempty hresult))
    · intro hnone
      have hscripts : r.compiler.scripts = [] := by
        by_contra hnamed
        exact hnone ⟨page, hpage, hgives, hscripts ▸ hnamed⟩
      refine ⟨fun _ _ => hscripts, fun _ => hscripts, ?_⟩
      intro html h hhtml
      rw [hresult] at h
      cases h
      exact absurd rfl hhtml
  | written houtline hpage hgives hresult hhtml hscripts =>
    refine iff_of_true ⟨?_, ?_, fun _ _ _ => ⟨_, hpage, hscripts⟩⟩ ?_
    · simp [hresult]
    · simp [hresult, hhtml]
    · simp [hpage, hgives]

end

/-! ### Requests one after the other -/

/-- After a request for an outline that could be read a compiler keeps the scripts of the page that
it has put together, and none if there is no such page. So it keeps what it should, unless the page
names scripts and the converter gives up on one of its texts. -/
theorem scripts_kept_iff (c : Compiler) (convert : Converter)
    (history : List (File.Reader × Request)) (read : File.Reader) (request : Request) :
    let before := c.after convert history
    let page? := before.page? read request
    let response := before.serve convert read request
    response.compiler.scripts = (if (request.outline? read).isNone then before.scripts
      else (page?.map (·.scripts)).getD []) ∧
    (KeepsPageScripts page? response ↔
      ¬ ∃ page, page? = some page ∧ GivesUp convert page.elements ∧ page.scripts ≠ []) := by
  intro before page? response
  have h : Serves before convert read request response := serves before convert read request
  exact ⟨h.scripts_eq, h.keeps_iff⟩

/-- The page of this outline names a script and holds a text. With a converter that gives up on
every text the page is left empty, and the compiler keeps the script. -/
theorem script_kept_at_empty_page :
    let c : Compiler := { service := { load := fun _ => { result := .error .crashed } } }
    let convert : Converter := fun _ => none
    let request : Request := .source "script(src=app.ts)\np x\n" emptyStore.options
    let response := c.serve convert emptyStore.read request
    response.result = .ok [] ∧ response.compiler.scripts = ["app.ts".toList] ∧
      ¬ KeepsPageScripts (c.page? emptyStore.read request) response := by
  intro c convert request response
  have h : (response.result.toOption, response.compiler.scripts) =
      (some [], ["app.ts".toList]) := by
    decide +kernel
  have hresult : response.result = .ok [] := toOption_eq_some (congrArg Prod.fst h)
  have hscripts : response.compiler.scripts = ["app.ts".toList] := congrArg Prod.snd h
  refine ⟨hresult, hscripts, ?_⟩
  intro hkeeps
  have hnone := hkeeps.empty hresult
  rw [hscripts] at hnone
  cases hnone

end OutlinePage.Page
