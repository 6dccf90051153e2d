import OutlinePage.Proofs.TrackedReads

/-!
# Requests do not influence each other

A compiler answers a request as a new one would, whatever it was asked for before, if all attempts
to load the tool for scripts end alike. The two compilers read the same store, and they differ only
in how far their script services have come, which the work on a page cannot tell. Only the scripts
that a compiler keeps may be those of an earlier page, since a file that cannot be read leaves them.
-/

namespace OutlinePage.Page

section

variable {outcome : Except Script.Fault Script.Tool} {c c' : Compiler}
  (hc : Script.Steady outcome c.service) (hc' : Script.Steady outcome c'.service)
  (hreach : c.reach = c'.reach) (read : File.Reader)

include hc hc' hreach

private theorem page?_eq (request : Request) : c.page? read request = c'.page? read request := by
  rw [Compiler.page?, Compiler.page?]
  refine Option.bind_congr fun outline _ => ?_
  have hresult := sameResult_compileWork (Script.consistent_steady outcome) hc hc' hreach
    outline.1 outline.2 fun path _ => (rfl : read path = read path)
  delta EStateM.run'
  revert hresult
  generalize (compileWork _ _ _).run { scripts := c.service } = r
  generalize (compileWork _ _ _).run { scripts := c'.service } = r'
  rintro (⟨page, -⟩ | ⟨fault, -⟩) <;> rfl

private theorem sameResponse (convert : Converter) (request : Request) :
    SameResponse (Script.Steady outcome) (c.serve convert read request)
      (c'.serve convert read request) :=
  sameResponse_serve (Script.consistent_steady outcome) hc hc' hreach convert request fun _ _ => rfl

omit hc' hreach in
private theorem steady_after (convert : Converter) (history : List (File.Reader × Request)) :
    Script.Steady outcome (c.after convert history).service := by
  induction history generalizing c with
  | nil => exact hc
  | cons step history ih => exact ih (sameResponse hc hc rfl step.1 convert step.2).service

omit hc hc' hreach in
private theorem reach_after (c : Compiler) (convert : Converter)
    (history : List (File.Reader × Request)) : (c.after convert history).reach = c.reach := by
  induction history generalizing c with
  | nil => rfl
  | cons step history ih => exact (ih _).trans (serve_reach c convert step.1 step.2)

end

/-! ### Requests after others -/

/-- Whatever a compiler was asked for before, it answers a request as a new compiler does and reads
the same files, if all attempts to load the tool for scripts end alike. It keeps the same scripts as
well, unless it still has those of an earlier page and the outline cannot be read. -/
theorem requests_independent {load : Nat → Script.Loading}
    {outcome : Except Script.Fault Script.Tool} (hload : ∀ n, (load n).result = outcome)
    (convert : Converter) (history : List (File.Reader × Request)) (read : File.Reader)
    (request : Request) (reach : Nat) :
    let fresh : Compiler := { service := { load }, reach }
    let used := fresh.after convert history
    let response := used.serve convert read request
    let alone := fresh.serve convert read request
    response.result = alone.result ∧ response.reads = alone.reads ∧
      (response.compiler.scripts = alone.compiler.scripts ↔
        request.outline? read ≠ none ∨ used.scripts = []) := by
  intro fresh used response alone
  have hfresh : Script.Steady outcome fresh.service := Script.steady_new hload
  have hused : Script.Steady outcome used.service := steady_after hfresh convert history
  have hreach : used.reach = fresh.reach := reach_after fresh convert history
  have hsame := sameResponse hused hfresh hreach read convert request
  refine ⟨hsame.result, hsame.reads, ?_⟩
  have hscripts := (serves used convert read request).scripts_eq
  have hscripts' := (serves fresh convert read request).scripts_eq
  rw [hscripts, hscripts', page?_eq hused hfresh hreach]
  cases request.outline? read with
  | none => simp [fresh]
  | some outline => simp

/-- A compiler whose scripts are copied, and which has not been asked for anything yet. -/
def copyingCompiler : Compiler :=
  { service := { load := fun _ => { result := .ok Script.copying } } }

/-- After a page with a script, a file that is not there and an import that is missing, an inline
script is compiled as by a new compiler. -/
theorem requests_independent_at_inline_script :
    (∀ n, (copyingCompiler.service.load n).result = .ok Script.copying) ∧
      let history : List (File.Reader × Request) := [
        (emptyStore.read, .source "script(src=app.ts)\nscript a()\n" emptyStore.options),
        (emptyStore.read, .file "gone.spl" false false),
        (emptyStore.read, .source "import gone\n" emptyStore.options)]
      let request : Request := .source "script b()\n" emptyStore.options
      let used := copyingCompiler.after some history
      let response := used.serve some emptyStore.read request
      let alone := copyingCompiler.serve some emptyStore.read request
      alone.result.toOption = some ("<!DOCTYPE html>\n<html>\n\t<head>\n\t\t" ++
        "<meta name=\"viewport\" content=\"width=device-width,initial-scale=1.0\">\n\t" ++
        "</head>\n\t<body>\n\t\t<script>b()</script>\n\t</body>\n</html>").toList ∧
      response.result = alone.result ∧ response.reads = alone.reads ∧
        response.compiler.scripts = alone.compiler.scripts := by
  have hload : ∀ n, (copyingCompiler.service.load n).result = .ok Script.copying := fun _ => rfl
  refine ⟨hload, ?_⟩
  intro history request used response alone
  obtain ⟨hresult, hreads, hscripts⟩ :=
    requests_independent hload some history emptyStore.read request usualReach
  refine ⟨?_, hresult, hreads, hscripts.mpr (.inl ?_)⟩
  · decide +kernel
  · simp [request, Request.outline?]

/-- After a page that names a script, a request for a file that is not there leaves the script. A
new compiler has none. -/
theorem scripts_left_at_missing_file :
    let history : List (File.Reader × Request) :=
      [(emptyStore.read, .source "script(src=app.ts)\n" emptyStore.options)]
    let request : Request := .file "gone.spl" false false
    let used := copyingCompiler.after some history
    (used.serve some emptyStore.read request).compiler.scripts = ["app.ts".toList] ∧
      (copyingCompiler.serve some emptyStore.read request).compiler.scripts = [] := by
  decide +kernel

end OutlinePage.Page
