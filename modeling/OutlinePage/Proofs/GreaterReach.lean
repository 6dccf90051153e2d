import OutlinePage.Proofs.BuildOutputs
import OutlinePage.Proofs.LeftScripts

/-!
# Raising the reach

A compiler follows elements as far as its reach, and gives up on a page that is not finished by
then. A greater reach changes nothing else: what is finished within one reach comes out in the same
way within every greater one, for the elements of a page, for the page, and for a site with all of
its pages and scripts. So a reach within which a build is finished does for it, and if there is
none, the build has no end.
-/

namespace OutlinePage.Page

/-! ### A page -/

private theorem compileWork_continues (s : Setting) {reach reach' : Nat} (h : reach ≤ reach')
    (source : Text) : Continues (compileWork s reach source) (compileWork s reach' source) := by
  refine (Continues.refl _).bind fun elements => ?_
  unfold assemble
  dsimp only
  exact (crawl_continues h _ _).bind fun _ => (crawl_continues h _ _).bind fun _ => .refl _

/-- What a compiler finishes within its reach, it makes in the same way within a greater one. -/
theorem compile_further {c : Compiler} {reach : Nat} (h : c.reach ≤ reach) {convert : Converter}
    {read : File.Reader} {source : Text} {options : Options}
    (hfinished : (c.compile convert read source options).result ≠ .error .unfinished) :
    let made := c.compile convert read source options
    Compiler.compile { c with reach } convert read source options =
      { made with compiler := { made.compiler with reach } } := by
  intro made
  rcases compileWork_continues ⟨options, read⟩ h source { scripts := c.service } with
    ⟨d, hrun⟩ | hrun
  · obtain ⟨log, hmade⟩ := compile_of_error convert hrun
    rw [hmade] at hfinished
    exact absurd rfl hfinished
  · dsimp only [made]
    rw [Compiler.compile, Compiler.compile, hrun]
    split
    · dsimp only
      split <;> rfl
    · dsimp only
      split <;> rfl

/-- A page from a file that is finished within a reach is the same within a greater one. -/
theorem compileFile_further {c : Compiler} {reach : Nat} (h : c.reach ≤ reach)
    {convert : Converter} {read : File.Reader} {path : Text} {convertScripts final : Bool}
    (hfinished : (c.compileFile convert read path convertScripts final).result ≠
      .error (.page .unfinished)) :
    let response := c.compileFile convert read path convertScripts final
    Compiler.compileFile { c with reach } convert read path convertScripts final =
      { response with compiler := { response.compiler with reach } } := by
  intro response
  dsimp only [response]
  rw [Compiler.compileFile] at hfinished
  rw [Compiler.compileFile, Compiler.compileFile]
  cases hread : read path with
  | error fault => rfl
  | ok source =>
    rw [hread] at hfinished
    dsimp only [Compilation.respond] at hfinished ⊢
    rw [compile_further h]
    intro hresult
    rw [hresult] at hfinished
    exact hfinished rfl

end OutlinePage.Page

namespace OutlinePage.Site

/-! ### A site -/

/-- The site with a compiler of the given reach. -/
def Construction.within (s : Construction) (reach : Nat) : Construction :=
  { s with compiler := { s.compiler with reach } }

/-- How work has ended, on the site with a compiler of the given reach. -/
def endWithin {α : Type} (reach : Nat) :
    EStateM.Result Fault Construction α → EStateM.Result Fault Construction α
  | .ok a s => .ok a (s.within reach)
  | .error f s => .error f (s.within reach)

/-- Work that keeps the reach, and that ends in the same way within a greater one, unless it is
unfinished. -/
structure Extends {α : Type} (x : Work α) : Prop where
  reach : ∀ s, (stateAfter (x.run s)).compiler.reach = s.compiler.reach
  further : ∀ {s reach}, s.compiler.reach ≤ reach →
    (∃ s', x.run s = .error (.page .unfinished) s') ∨
      x.run (s.within reach) = endWithin reach (x.run s)

section

variable {α β : Type}

private theorem Extends.bind {x : Work α} {f : α → Work β} (hx : Extends x)
    (hf : ∀ a, Extends (f a)) : Extends (x >>= f) := by
  constructor
  · intro s
    have hfirst := hx.reach s
    rw [EStateM.run_bind]
    cases hrun : x.run s with
    | error fault s' =>
      rw [hrun] at hfirst
      exact hfirst
    | ok a s' =>
      rw [hrun] at hfirst
      exact ((hf a).reach s').trans hfirst
  · intro s reach h
    have hfirst := hx.reach s
    rw [EStateM.run_bind, EStateM.run_bind]
    rcases hx.further h with ⟨s', hrun⟩ | hsame
    · rw [hrun]
      exact .inl ⟨s', rfl⟩
    · rw [hsame]
      cases hrun : x.run s with
      | error fault s' => exact .inr rfl
      | ok a s' =>
        rw [hrun] at hfirst
        exact (hf a).further (hfirst.trans_le h)

private theorem extends_pure (a : α) : Extends (pure a : Work α) :=
  ⟨fun _ => rfl, fun _ => .inr rfl⟩

private theorem extends_forM {work : α → Work Unit} (hwork : ∀ a, Extends (work a))
    (as : List α) : Extends (as.forM work) := by
  induction as with
  | nil => exact extends_pure ()
  | cons a as ih => exact (hwork a).bind fun _ => ih

private theorem extends_writeFile (path : File.Path) (t : Text) : Extends (writeFile path t) := by
  constructor
  · intro s
    rw [(writeFile_keeps path t s).1]
  · intro s reach _
    right
    rw [writeFile_run, writeFile_run]
    dsimp only [Construction.within]
    split
    · rfl
    · split <;> rfl

private theorem extends_compileScript (config : Config) (page : File.Path × File.Path)
    (script : Text) : Extends (compileScript page.1 page.2 script config) := by
  constructor
  · intro s
    rw [compileScript_run]
    split
    · rfl
    · split
      · rfl
      · split
        · rfl
        · dsimp only
          split <;> rfl
  · intro s reach _
    right
    rw [compileScript_run, compileScript_run]
    dsimp only [Construction.within]
    split
    · rfl
    · split
      · rfl
      · split
        · rfl
        · split <;> rfl

private theorem extends_compileFile (config : Config) (page : File.Path × File.Path) :
    Extends (compileFile page.1.toText config.convertScripts config.final) := by
  constructor
  · intro s
    have hreach : (compiledSite config page s).compiler.reach = s.compiler.reach :=
      Page.serve_reach s.compiler s.convert s.disk.reader
        (.file page.1.toText config.convertScripts config.final)
    rw [compileFile_run]
    split <;> exact hreach
  · intro s reach h
    by_cases hfinished : (response config page s).result = .error (.page .unfinished)
    · left
      rw [compileFile_run, hfinished]
      exact ⟨_, rfl⟩
    · right
      have hresponse : response config page (s.within reach) =
          { response config page s with
            compiler := { (response config page s).compiler with reach } } :=
        Page.compileFile_further h hfinished
      rw [compileFile_run, compileFile_run, compiledSite, hresponse]
      dsimp only
      split <;> rfl

private theorem extends_buildScript (config : Config) (page : File.Path × File.Path)
    (script : Text) : Extends (buildScript page.1 page.2 script config) := by
  refine (extends_compileScript config page script).bind fun output => ?_
  cases output with
  | none => exact extends_pure ()
  | some output => exact extends_writeFile output.path output.text

private theorem extends_buildPage (config : Config) (page : File.Path × File.Path) :
    Extends (buildPage config page) := by
  refine (extends_compileFile config page).bind fun html =>
    (extends_writeFile page.2 html).bind fun _ => ?_
  -- Which scripts are built is up to the compiler, but not to its reach.
  have hscripts (scripts : List Text) :=
    extends_forM (extends_buildScript config page) scripts
  exact ⟨fun s => (hscripts s.compiler.scripts).reach s,
    fun {s} {_} h => (hscripts s.compiler.scripts).further h⟩

end

/-- A build that is finished within the reach of its compiler is the same within every greater one,
and so is the build after a change. -/
theorem build_further (config : Config) {s : Construction} {reach : Nat}
    (h : s.compiler.reach ≤ reach)
    (hfinished : ∀ s', build config s ≠ .error (.page .unfinished) s') :
    build config (s.within reach) = endWithin reach (build config s) ∧
      rebuild config (s.within reach) = endWithin reach (rebuild config s) := by
  have hbuild : build config (s.within reach) = endWithin reach (build config s) :=
    ((extends_forM (extends_buildPage config) config.pages.entries).further h).resolve_left
      fun ⟨s', hrun⟩ => hfinished s' hrun
  refine ⟨hbuild, ?_⟩
  rw [rebuild, rebuild, hbuild]
  cases build config s with
  | ok u s' => rfl
  | error f s' =>
    dsimp only [endWithin]
    split <;> rfl

end OutlinePage.Site
