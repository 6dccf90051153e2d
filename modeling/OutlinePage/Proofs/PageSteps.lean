import OutlinePage.Page.Compile
import OutlinePage.Proofs.Crawling

/-!
# The steps of the work on a page

All work on a page is put together from a few kinds of steps: lines are logged, a path is read from
the store, an inline script is compiled, and the table of components is looked into or added to.
What holds of each of these, and goes over to one piece of work after the other, holds of the work
as a whole. The work is taken as it depends on the store, so that two runs with different stores can
be compared.
-/

namespace OutlinePage.Page

/-- A property of work on a page with the given options, as the work depends on the store. Every
step has it, and so has work that is done piece by piece if each of the pieces has it. -/
structure Stepwise (o : Options) (Q : (α : Type) → (File.Reader → Work α) → Prop) : Prop where
  pure : ∀ {α : Type} (a : α), Q α fun _ => pure a
  bind : ∀ {α β : Type} {x : File.Reader → Work α} {f : File.Reader → α → Work β},
    Q α x → (∀ a, Q β fun read => f read a) → Q β fun read => x read >>= f read
  mistaken : ∀ {α : Type} (error : SourceError), Q α fun _ => throw (.mistaken error)
  log : ∀ lines : Log, Q Unit fun _ => modify fun d => { d with log := d.log ++ lines }
  fetch : ∀ path importer : Text, Q Text fun read => fetch ⟨o, read⟩ path importer
  compileInline : ∀ (t : Tag) (source : Text),
    Q Text fun read => compileInline ⟨o, read⟩ t source
  lookUp : ∀ name : Text, Q (Option Element) fun _ => lookUp name
  register : ∀ definition : Element, Q Unit fun _ => register definition

namespace Stepwise

variable {o : Options} {Q : (α : Type) → (File.Reader → Work α) → Prop} (h : Stepwise o Q)

include h

private theorem readOutline (source : Text) (o' : Options) :
    Q (List Element) fun _ => readOutline source o' := by
  refine h.bind (h.log _) fun _ => ?_
  cases Outline.read source o' with
  | ok elements => exact h.pure elements
  | error e => exact h.mistaken e

/-- What each step has, importing a file has. -/
theorem importElements (t : Tag) :
    Q (List Element) fun read => importElements ⟨o, read⟩ t := by
  cases hnamed : (Text.strip (t.text.getD [])).isEmpty with
  | true =>
    simp only [Page.importElements, hnamed, if_true]
    exact h.mistaken ⟨.missingFile, t.file, t.position⟩
  | false =>
    simp only [Page.importElements, hnamed, Bool.false_eq_true, if_false]
    exact h.bind (h.fetch _ t.file) fun source =>
      h.bind (h.log [_]) fun _ => h.readOutline source _

/-- What each step has, expanding a tag has. -/
theorem expandTag (t : Tag) : Q (Tag × List Text) fun read => expandTag ⟨o, read⟩ t := by
  simp only [expandTag_eq]
  cases inlineScript t with
  | none => exact h.pure _
  | some source => exact h.bind (h.compileInline t source) fun _ => h.pure _

private theorem crawlElement {inHead : Bool}
    {below : File.Reader → Room → List Element → Work Crawled}
    (hbelow : ∀ room es, Q Crawled fun read => below read room es) (room : Room) (e : Element) :
    Q Crawled fun read => crawlElement ⟨o, read⟩ inHead (below read) room e := by
  cases himport : Vocabulary.importTags.contains e.name with
  | true =>
    simp only [Page.crawlElement, himport, if_true]
    exact h.bind (h.importElements e.tag) (hbelow room)
  | false =>
    simp only [Page.crawlElement, himport, Bool.false_eq_true, if_false]
    refine h.bind (h.lookUp _) fun found => ?_
    cases found with
    | some template => exact h.bind (hbelow _ _) fun _ => h.pure _
    | none =>
      dsimp only
      cases isDefinition (canonical e.tag) with
      | true => exact h.bind (h.register _) fun _ => h.pure _
      | false =>
        refine h.bind (h.expandTag _) fun expanded => h.bind (hbelow _ _) fun inner => ?_
        split <;> exact h.pure _

private theorem crawlEach {one : File.Reader → Element → Work Crawled}
    (hone : ∀ e, Q Crawled fun read => one read e) (es : List Element) :
    Q Crawled fun read => crawlEach (one read) es := by
  induction es with
  | nil => exact h.pure _
  | cons e es ih => exact h.bind (hone e) fun _ => h.bind ih fun _ => h.pure _

variable (hendless : Q Crawled fun _ => throw .endless)
  (hunfinished : Q Crawled fun _ => throw .unfinished)

include hendless hunfinished

private theorem crawl (inHead : Bool) (reach : Nat) (room : Room) (es : List Element) :
    Q Crawled fun read => crawl ⟨o, read⟩ inHead reach room es := by
  induction reach generalizing room es with
  | zero =>
    cases es with
    | nil => exact h.pure _
    | cons e es => exact hunfinished
  | succ reach ih =>
    by_cases hroom : room = some 0
    · subst hroom
      cases es with
      | nil => exact h.pure _
      | cons e es => exact hendless
    · simp only [crawl_succ reach hroom]
      exact h.crawlEach (h.crawlElement ih room) es

/-- What each step has, compiling a page has, if it does not get lost where the work is too deep or
unfinished. -/
theorem compileWork (reach : Nat) (source : Text) :
    Q Assembled fun read => compileWork ⟨o, read⟩ reach source := by
  refine h.bind (h.readOutline source o) fun elements => ?_
  unfold assemble
  dsimp only
  exact h.bind (h.crawl hendless hunfinished true reach _ _) fun inHead =>
    h.bind (h.crawl hendless hunfinished false reach _ _) fun inBody => h.pure _

end Stepwise

end OutlinePage.Page
