import Mathlib.Data.List.Forall2
import OutlinePage.Proofs.DirectWriting
import OutlinePage.Proofs.Scopes

/-!
# Pages are well nested

What stands between angle brackets on a page is the way through its elements: a tag where an element
begins, then what is below it, and a closing tag where it ends. This holds as long as no text that
goes into the page brings angle brackets of its own.
-/

namespace OutlinePage

/-! ### Texts without angle brackets -/

namespace Text

/-- Is there no angle bracket in the text? -/
def isAngleFree (t : Text) : Bool := t.all fun c => c != '<' && c != '>'

/-- Two texts have no angle brackets together if neither has. -/
@[simp] theorem isAngleFree_append (s t : Text) :
    isAngleFree (s ++ t) = (isAngleFree s && isAngleFree t) :=
  List.all_append

/-- A text has no angle brackets if neither its first character is one nor its rest has any. -/
@[simp] theorem isAngleFree_cons (c : Char) (t : Text) :
    isAngleFree (c :: t) = ((c != '<' && c != '>') && isAngleFree t) := rfl

private theorem isAngleFree_of_subset {s t : Text} (h : ∀ c ∈ s, c ∈ t)
    (ht : isAngleFree t = true) :
    isAngleFree s = true :=
  List.all_eq_true.mpr fun c hc => List.all_eq_true.mp ht c (h c hc)

private theorem isAngleFree_lineBreak (depth : Nat) : isAngleFree (lineBreak depth) = true := by
  simp [isAngleFree, lineBreak]

/-- Tabs before the lines bring no angle bracket. -/
theorem isAngleFree_indented (depth : Nat) (t : Text) :
    isAngleFree (indented depth t) = isAngleFree t := by
  induction t with
  | nil => rfl
  | cons c t ih =>
    by_cases hc : c = '\n'
    · subst hc
      rw [indented_newline, isAngleFree_append, isAngleFree_lineBreak, ih]
      rfl
    · rw [indented_cons hc, isAngleFree_cons, isAngleFree_cons, ih]

private theorem head?_indented (depth : Nat) (t : Text) : (indented depth t).head? = t.head? := by
  cases t with
  | nil => rfl
  | cons c t =>
    by_cases hc : c = '\n'
    · subst hc
      rfl
    · rw [indented_cons hc]
      rfl

private theorem mem_of_mem_unquote {c : Char} {v : Text} (h : c ∈ unquote v) : c ∈ v := by
  unfold unquote at h
  split at h
  · next q r =>
    split at h
    · exact List.mem_cons_of_mem q (List.dropLast_subset r h)
    · exact h
  · exact h

private theorem isAngleFree_join {d : Text} (hd : isAngleFree d = true) {ps : List Text}
    (h : ∀ p ∈ ps, isAngleFree p = true) : isAngleFree (join d ps) = true := by
  induction ps with
  | nil => rfl
  | cons p ps ih =>
    rw [List.forall_mem_cons] at h
    cases ps with
    | nil => exact h.1
    | cons q qs => rw [join, isAngleFree_append, isAngleFree_append, h.1, hd, ih h.2]; rfl

end Text

namespace Variables

open Text

private theorem reference?_suffix {t name after : Text} (h : reference? t = some (name, after)) :
    after <:+ t := by
  obtain ⟨-, rfl⟩ := reference?_eq_some.mp h
  exact ⟨'@' :: '{' :: (name ++ ['}']), by simp⟩

/-- Values without angle brackets bring none into a text without them. -/
theorem isAngleFree_substitute {vars : Variables}
    (hvars : ∀ entry ∈ vars.entries, isAngleFree entry.2 = true) {t : Text}
    (ht : isAngleFree t = true) : isAngleFree (vars.substitute t) = true := by
  fun_induction references t with
  | case1 t name after href hlt ih =>
    have hafter : isAngleFree after = true :=
      isAngleFree_of_subset (fun c hc => (reference?_suffix href).subset hc) ht
    rw [substitute_reference href, isAngleFree_append, ih hafter, Bool.and_true]
    cases hvalue : vars.get? name with
    | none => exact isAngleFree_of_subset (fun c hc => List.mem_of_mem_take hc) ht
    | some value =>
      exact isAngleFree_of_subset (fun c hc => mem_of_mem_unquote hc)
        (hvars (name, value) (Table.mem_of_find? hvalue))
  | case2 => rwa [substitute_nil]
  | case3 c r href ih =>
    rw [isAngleFree_cons, Bool.and_eq_true] at ht
    rw [substitute_cons href, isAngleFree_cons, ht.1, ih ht.2]
    rfl

end Variables

namespace Page

open Text

/-! ### Chunks -/

/-- Reads chunks to the end of a text, from outside of a chunk or from after its beginning. -/
def chunksFrom : Option Text → Text → Option (List Text)
  | none, [] => some []
  | some _, [] => none
  | none, c :: r =>
    if c = '<' then chunksFrom (some []) r
    else if c = '>' then none
    else chunksFrom none r
  | some chunk, c :: r =>
    if c = '>' then (chunksFrom none r).map (chunk :: ·)
    else if c = '<' then none
    else chunksFrom (some (chunk ++ [c])) r

/-- The chunks `<…>` of a text from left to right, without their angle brackets. There are none to
be read if some angle bracket is neither the beginning nor the end of a chunk. -/
def chunks? (t : Text) : Option (List Text) := chunksFrom none t

/-- The text gives these chunks, whatever comes after it. -/
def Chunked (t : Text) (cs : List Text) : Prop :=
  ∀ rest, chunks? (t ++ rest) = (chunks? rest).map (cs ++ ·)

private theorem chunksFrom_chunk {t : Text} (h : isAngleFree t = true) (chunk rest : Text) :
    chunksFrom (some chunk) (t ++ '>' :: rest) =
      (chunksFrom none rest).map ((chunk ++ t) :: ·) := by
  induction t generalizing chunk with
  | nil => simp [chunksFrom]
  | cons c t ih =>
    simp only [isAngleFree_cons, Bool.and_eq_true, bne_iff_ne] at h
    rw [List.cons_append, chunksFrom, if_neg h.1.2, if_neg h.1.1, ih h.2, List.append_assoc,
      List.singleton_append]

/-- Text without angle brackets gives no chunk. -/
theorem chunked_of_isAngleFree {t : Text} (h : isAngleFree t = true) : Chunked t [] := by
  intro rest
  induction t with
  | nil => simp
  | cons c t ih =>
    simp only [isAngleFree_cons, Bool.and_eq_true, bne_iff_ne] at h
    rw [List.cons_append, chunks?, chunksFrom, if_neg h.1.1, if_neg h.1.2]
    exact ih h.2

private theorem chunked_chunk {chunk : Text} (h : isAngleFree chunk = true) :
    Chunked ("<" ++ chunk ++ ">") [chunk] := by
  intro rest
  have hopen : ("<" : Text) = ['<'] := rfl
  have hclose : (">" : Text) = ['>'] := rfl
  rw [hopen, hclose, List.append_assoc, List.append_assoc, List.singleton_append,
    List.singleton_append, chunks?, chunksFrom, if_pos rfl, chunksFrom_chunk h]
  rfl

private theorem Chunked.append {s t : Text} {cs ds : List Text} (hs : Chunked s cs)
    (ht : Chunked t ds) :
    Chunked (s ++ t) (cs ++ ds) := by
  intro rest
  rw [List.append_assoc, hs, ht, Option.map_map]
  congr 1
  funext es
  exact (List.append_assoc cs ds es).symm

private theorem Chunked.chunks?_eq {t : Text} {cs : List Text} (h : Chunked t cs) :
    chunks? t = some cs := by
  have hend := h []
  rwa [List.append_nil, chunks?, chunks?, chunksFrom, Option.map_some, List.append_nil] at hend

/-- Every angle bracket belongs to one of the chunks. -/
theorem count_of_chunksFrom {open? : Option Text} {t : Text} {cs : List Text}
    (h : chunksFrom open? t = some cs) :
    t.count '<' + (if open?.isSome then 1 else 0) = cs.length ∧ t.count '>' = cs.length := by
  induction t generalizing open? cs with
  | nil =>
    cases open? with
    | none => cases h; exact ⟨rfl, rfl⟩
    | some chunk => cases h
  | cons c t ih =>
    cases open? with
    | none =>
      rw [chunksFrom] at h
      split at h
      · next hc =>
        subst hc
        simpa using ih h
      · next hopen =>
        split at h
        · cases h
        · next hclose =>
          rw [List.count_cons_of_ne hopen, List.count_cons_of_ne hclose]
          exact ih h
    | some chunk =>
      rw [chunksFrom] at h
      split at h
      · next hc =>
        subst hc
        obtain ⟨ds, hds, rfl⟩ := Option.map_eq_some_iff.mp h
        simpa using ih hds
      · next hclose =>
        split at h
        · cases h
        · next hopen =>
          rw [List.count_cons_of_ne hopen, List.count_cons_of_ne hclose]
          simpa using ih h

/-! ### The way through the elements -/

/-- A place where an element begins or ends. -/
structure Crossing where
  /-- How many elements are around the element. -/
  depth : Nat
  tag : Tag
  leaving : Bool

mutual

/-- The way through an element: its beginning, what is below it, and its end. The end is passed in
silence if the tag is void and holds neither text nor elements. -/
def crossingsOf (depth : Nat) : Element → List Crossing
  | ⟨t, children⟩ =>
    ⟨depth, t, false⟩ :: (crossings (depth + 1) children ++
      if t.isVoid && children.isEmpty && t.text?.isNone then [] else [⟨depth, t, true⟩])

/-- The way through some elements, one after the other. -/
def crossings (depth : Nat) : List Element → List Crossing
  | [] => []
  | e :: es => crossingsOf depth e ++ crossings depth es

end

/-- The chunk shows the crossing, for a way to write names: it begins with the name where the
element begins, and is the name behind a slash where it ends. -/
def Crossing.ShownBy (written : Crossing → Text) (c : Crossing) (chunk : Text) : Prop :=
  if c.leaving then chunk = "/" ++ written c
  else written c <+: chunk ∧ chunk.head? ≠ some '/'

/-- The name as it is written: with the tabs of its element in front of every line but the first. A
name in one line stays as it is. -/
def Crossing.writtenName (c : Crossing) : Text := indented c.depth c.tag.name

mutual

/-- The tags of an element and of those below it, each with the scope in which it is written. -/
def scopesOf (vars : Variables) : Element → List (Variables × Tag)
  | ⟨t, children⟩ => (vars, t) :: scopes (vars.union t.attributes) children

/-- The tags of all elements, each with the scope in which it is written. -/
def scopes (vars : Variables) : List Element → List (Variables × Tag)
  | [] => []
  | e :: es => scopesOf vars e ++ scopes vars es

end

/-- Nothing that is written for the tag in this scope brings angle brackets, and its name is not
taken for the name of a closing tag. -/
structure AngleFree (convert : Text → Text) (vars : Variables) (t : Tag) : Prop where
  name : isAngleFree t.name = true
  opens : t.name.head? ≠ some '/'
  attributes : ∀ entry ∈ t.attributes.entries,
    isAngleFree entry.1 = true ∧ isAngleFree entry.2 = true
  id : ∀ i ∈ t.id, isAngleFree i = true
  classes : ∀ c ∈ t.classes, isAngleFree c = true
  verbatim : t.isVerbatim = true → ∀ text ∈ t.text?, isAngleFree text = true
  converted : t.isVerbatim = false → ∀ text ∈ t.text?,
    isAngleFree (Prose.toHtml convert (vars.substitute text)) = true

instance (convert : Text → Text) (vars : Variables) (t : Tag) :
    Decidable (AngleFree convert vars t) :=
  decidable_of_iff
    (isAngleFree t.name = true ∧ t.name.head? ≠ some '/' ∧
      (∀ entry ∈ t.attributes.entries, isAngleFree entry.1 = true ∧ isAngleFree entry.2 = true) ∧
      (∀ i ∈ t.id, isAngleFree i = true) ∧ (∀ c ∈ t.classes, isAngleFree c = true) ∧
      (t.isVerbatim = true → ∀ text ∈ t.text?, isAngleFree text = true) ∧
      (t.isVerbatim = false → ∀ text ∈ t.text?,
        isAngleFree (Prose.toHtml convert (vars.substitute text)) = true))
    ⟨fun ⟨name, opens, attributes, id, classes, verbatim, converted⟩ =>
      { name, opens, attributes, id, classes, verbatim, converted },
    fun h => ⟨h.name, h.opens, h.attributes, h.id, h.classes, h.verbatim, h.converted⟩⟩

/-! ### What is written for an element -/

/-- The text can stand in an opening tag. -/
def Opening (t : Text) : Prop := isAngleFree t = true ∧ t.head? ≠ some '/'

private theorem opening_nil : Opening [] := ⟨rfl, by simp⟩

private theorem Opening.append {s t : Text} (hs : Opening s) (ht : Opening t) :
    Opening (s ++ t) := by
  refine ⟨by rw [isAngleFree_append, hs.1, ht.1]; rfl, ?_⟩
  cases s with
  | nil => exact ht.2
  | cons c s => exact hs.2

/-- Behind its first character anything may stand in an opening tag. -/
theorem Opening.append_free {s t : Text} (hs : Opening s) (hne : s ≠ [])
    (ht : isAngleFree t = true) : Opening (s ++ t) := by
  refine ⟨by rw [isAngleFree_append, hs.1, ht]; rfl, ?_⟩
  obtain ⟨c, s, rfl⟩ := List.exists_cons_of_ne_nil hne
  exact hs.2

private theorem opening_flatMap {α : Type} {f : α → Text} {as : List α}
    (h : ∀ a ∈ as, Opening (f a)) :
    Opening (as.flatMap f) := by
  induction as with
  | nil => exact opening_nil
  | cons a as ih =>
    rw [List.forall_mem_cons] at h
    exact h.1.append (ih h.2)

section

variable {convert : Text → Text} {vars : Variables} {t : Tag}

private theorem opening_renderAttribute (hvars : ∀ entry ∈ vars.entries, isAngleFree entry.2 = true)
    {entry : Text × Text} (h : isAngleFree entry.1 = true ∧ isAngleFree entry.2 = true) :
    Opening (renderAttribute vars entry) := by
  have hvalue := Variables.isAngleFree_substitute hvars h.2
  have hspace : Opening " " := ⟨by decide, by decide⟩
  have hname : Opening (" " ++ entry.1) := hspace.append_free (by decide) h.1
  rw [renderAttribute]
  split
  · exact hname
  · have hequals : Opening "=" := ⟨by decide, by decide⟩
    have heq := hequals.append_free (by decide) hvalue
    rw [List.append_assoc]
    exact hname.append heq

/-- The parts of an opening tag. -/
theorem openTag_parts (vars : Variables) (t : Tag) :
    ∃ id classes,
      openTag vars t = "<" ++ (t.name ++
        (t.attributes.entries.flatMap (renderAttribute vars) ++ (id ++ classes))) ++ ">" ∧
      (id = [] ∨ ∃ i ∈ t.id, id = " id=\"" ++ i ++ "\"") ∧
      (classes = [] ∨ classes = " class=\"" ++ Text.join " " t.classes ++ "\"") := by
  have hassoc (a b c d e f : Text) :
      a ++ b ++ c ++ d ++ e ++ f = a ++ (b ++ (c ++ (d ++ e))) ++ f := by
    simp only [List.append_assoc]
  rw [openTag]
  refine ⟨_, _, hassoc _ _ _ _ _ _, ?_, ?_⟩
  · split
    · exact Or.inl rfl
    · next i hi =>
      split
      · exact Or.inl rfl
      · exact Or.inr ⟨i, hi, rfl⟩
  · split
    · exact Or.inl rfl
    · exact Or.inr rfl

/-- An opening tag is one chunk, which begins with the name. -/
theorem AngleFree.openTag_eq (h : AngleFree convert vars t)
    (hvars : ∀ entry ∈ vars.entries, isAngleFree entry.2 = true) :
    ∃ more, openTag vars t = "<" ++ (t.name ++ more) ++ ">" ∧ Opening (t.name ++ more) := by
  obtain ⟨id, classes, htag, hid, hclasses⟩ := openTag_parts vars t
  have hquote : Opening "\"" := ⟨by decide, by decide⟩
  have hopenId : Opening id := by
    rcases hid with rfl | ⟨i, hi, rfl⟩
    · exact opening_nil
    · have hmark : Opening " id=\"" := ⟨by decide, by decide⟩
      exact (hmark.append_free (by decide) (h.id i hi)).append hquote
  have hopenClasses : Opening classes := by
    rcases hclasses with rfl | rfl
    · exact opening_nil
    · have hmark : Opening " class=\"" := ⟨by decide, by decide⟩
      exact (hmark.append_free (by decide) (isAngleFree_join (by decide) h.classes)).append hquote
  have hattributes : Opening (t.attributes.entries.flatMap (renderAttribute vars)) :=
    opening_flatMap fun entry hentry => opening_renderAttribute hvars (h.attributes entry hentry)
  have hname : Opening t.name := ⟨h.name, h.opens⟩
  exact ⟨_, htag, hname.append (hattributes.append (hopenId.append hopenClasses))⟩

private theorem AngleFree.renderText (h : AngleFree convert vars t)
    (hvars : ∀ entry ∈ vars.entries, isAngleFree entry.2 = true) :
    isAngleFree (renderText convert vars t) = true := by
  rw [Page.renderText]
  cases htext : t.text? with
  | none => rfl
  | some text =>
    dsimp only
    cases hverbatim : t.isVerbatim with
    | true => exact Variables.isAngleFree_substitute hvars (h.verbatim hverbatim text htext)
    | false =>
      have hconverted := h.converted hverbatim text htext
      have hopen : isAngleFree "\n\t" = true := by decide
      have hclose : isAngleFree "\n" = true := by decide
      simp only [Bool.false_eq_true, if_false]
      split
      · rw [isAngleFree_append, isAngleFree_append, hopen, hclose, hconverted]
        rfl
      · exact hconverted

end

/-- The text gives chunks that show these crossings. -/
def Shows (t : Text) (way : List Crossing) : Prop :=
  ∃ cs, Chunked t cs ∧ List.Forall₂ (Crossing.ShownBy Crossing.writtenName) way cs

private theorem Shows.append {s t : Text} {way way' : List Crossing} (hs : Shows s way)
    (ht : Shows t way') : Shows (s ++ t) (way ++ way') := by
  obtain ⟨cs, hcs, hway⟩ := hs
  obtain ⟨ds, hds, hway'⟩ := ht
  exact ⟨cs ++ ds, hcs.append hds, List.rel_append hway hway'⟩

private theorem shows_of_isAngleFree {t : Text} (h : isAngleFree t = true) : Shows t [] :=
  ⟨[], chunked_of_isAngleFree h, .nil⟩

/-- A tag at some depth, with its lines moved there, is still one chunk. -/
theorem shows_chunk {depth : Nat} {inside : Text} (h : isAngleFree inside = true) {c : Crossing}
    (hc : c.ShownBy Crossing.writtenName (indented depth inside)) :
    Shows (indented depth ("<" ++ inside ++ ">")) [c] := by
  have hinside : isAngleFree (indented depth inside) = true := by rwa [isAngleFree_indented]
  have hopen : indented depth "<" = "<" := indented_of_not_mem (by decide) depth
  have hclose : indented depth ">" = ">" := indented_of_not_mem (by decide) depth
  refine ⟨[indented depth inside], ?_, .cons hc .nil⟩
  rw [indented_append, indented_append, hopen, hclose]
  exact chunked_chunk hinside

section

variable {convert : Text → Text} (depth : Nat) {vars : Variables} {t : Tag}

private theorem shows_openTag (h : AngleFree convert vars t)
    (hvars : ∀ entry ∈ vars.entries, isAngleFree entry.2 = true) :
    Shows (indented depth (openTag vars t)) [⟨depth, t, false⟩] := by
  obtain ⟨more, htag, hmore⟩ := h.openTag_eq hvars
  rw [htag]
  refine shows_chunk hmore.1 ⟨?_, ?_⟩
  · rw [indented_append]
    exact List.prefix_append _ _
  · rw [head?_indented]
    exact hmore.2

private theorem shows_closeTag (h : AngleFree convert vars t) (isLeaf : Bool) :
    Shows (indented depth (closeTag t isLeaf))
      (if t.isVoid && isLeaf && t.text?.isNone then [] else [⟨depth, t, true⟩]) := by
  rw [closeTag]
  split
  · exact shows_of_isAngleFree rfl
  · have hinside : isAngleFree ('/' :: t.name) = true := by
      rw [isAngleFree_cons, h.name]
      rfl
    exact shows_chunk (c := ⟨depth, t, true⟩) hinside (indented_cons (by decide) depth t.name)

/-- An element shows the way through it, if its children do. -/
theorem shows_writeElement {children : List Element} (h : AngleFree convert vars t)
    (hvars : ∀ entry ∈ vars.entries, isAngleFree entry.2 = true)
    (hchildren : Shows (writeAll convert (depth + 1) (vars.union t.attributes) children)
      (crossings (depth + 1) children)) :
    Shows (writeElement convert depth vars ⟨t, children⟩) (crossingsOf depth ⟨t, children⟩) := by
  have htext : Shows (indented depth (renderText convert vars t)) [] :=
    shows_of_isAngleFree (by rw [isAngleFree_indented, h.renderText hvars])
  have hbreak (d : Nat) : Shows (lineBreak d) [] :=
    shows_of_isAngleFree (isAngleFree_lineBreak d)
  have hinner : Shows (if children.isEmpty then []
      else lineBreak (depth + 1) ++
        writeAll convert (depth + 1) (vars.union t.attributes) children ++ lineBreak depth)
      (crossings (depth + 1) children) := by
    cases children with
    | nil => exact shows_of_isAngleFree rfl
    | cons e es => simpa using ((hbreak (depth + 1)).append hchildren).append (hbreak depth)
  have hall := (((shows_openTag depth h hvars).append htext).append hinner).append
    (shows_closeTag depth h children.isEmpty)
  rw [writeElement, crossingsOf]
  simpa using hall

end

/-- The scope of the children has values without angle brackets, as the attributes have. -/
theorem AngleFree.scope {convert : Text → Text} {vars : Variables} {t : Tag}
    (h : AngleFree convert vars t) (hvars : ∀ entry ∈ vars.entries, isAngleFree entry.2 = true) :
    ∀ entry ∈ (vars.union t.attributes).entries, isAngleFree entry.2 = true := by
  intro entry hentry
  rcases Table.mem_union hentry with hold | hnew
  · exact hvars entry hold
  · exact (h.attributes entry hnew).2

private theorem shows_writeAll {convert : Text → Text} (depth : Nat) {vars : Variables}
    {es : List Element} (hvars : ∀ entry ∈ vars.entries, isAngleFree entry.2 = true)
    (h : ∀ place ∈ scopes vars es, AngleFree convert place.1 place.2) :
    Shows (writeAll convert depth vars es) (crossings depth es) := by
  induction es using Outline.forest_induction generalizing depth vars with
  | nil => exact shows_of_isAngleFree rfl
  | cons tag children rest ihc ihr =>
    rw [scopes, scopesOf, List.cons_append, List.forall_mem_cons, List.forall_mem_append] at h
    obtain ⟨htag, hchildren, hrest⟩ := h
    have helement := shows_writeElement depth htag hvars
      (ihc (depth + 1) (htag.scope hvars) hchildren)
    cases rest with
    | nil => simpa [writeAll, crossings] using helement
    | cons next others =>
      have hbreak := shows_of_isAngleFree (isAngleFree_lineBreak depth)
      rw [writeAll, crossings]
      simpa using (helement.append hbreak).append (ihr depth hvars hrest)

/-- A page is well nested. If neither the scope nor what is written for the tags brings angle
brackets, the page is made of chunks that show the way through its elements, and no angle bracket
stands outside of them: one chunk where an element begins, which begins with its name, then those of
its children, and one chunk with its name behind a slash where it ends, which only a void tag
without text and children does without. Each name has the tabs of its depth in front of every line
but the first, so that a name in one line stands there as it is. -/
theorem page_well_nested (convert : Text → Text) (vars : Variables) (es : List Element)
    (hvars : ∀ entry ∈ vars.entries, isAngleFree entry.2 = true)
    (h : ∀ place ∈ scopes vars es, AngleFree convert place.1 place.2) :
    ∃ cs, chunks? (render convert vars es) = some cs ∧
      List.Forall₂ (Crossing.ShownBy Crossing.writtenName) (crossings 0 es) cs ∧
      (render convert vars es).count '<' = cs.length ∧
      (render convert vars es).count '>' = cs.length := by
  obtain ⟨cs, hcs, hway⟩ := shows_writeAll 0 hvars h
  rw [← indented_render, indented_zero] at hcs
  exact ⟨cs, hcs.chunks?_eq, hway, count_of_chunksFrom hcs.chunks?_eq⟩

/-- A list in a scope with one variable: an attribute in two lines that refers to it, a text that
refers to an attribute, a void tag and a verbatim text. The converter makes paragraphs. -/
theorem page_well_nested_at_list :
    let convert : Text → Text := fun t => "<p>" ++ t ++ "</p>"
    let vars : Variables := ⟨[("n", "\"1\"")]⟩
    let item : Tag := { name := "li", file := "f", text := some "@\x7bk\x7d", classes := ["c"] }
    let list : Tag := { name := "ul", file := "f", attributes := ⟨[("k", "a\n@\x7bn\x7d")]⟩ }
    let es : List Element := [⟨list, [⟨item, []⟩,
      ⟨{ name := "br", file := "f", isVoid := true }, []⟩,
      ⟨{ name := "style", file := "f", text := some "p", isVerbatim := true }, []⟩]⟩]
    render convert vars es = ("<ul k=a\n1>\n\t<li class=\"c\">a\n\t@\x7bn\x7d</li>\n\t<br>\n\t" ++
      "<style>p</style>\n</ul>").toList ∧
    (∀ place ∈ scopes vars es, AngleFree convert place.1 place.2) ∧
    ∃ cs, chunks? (render convert vars es) = some cs ∧
      List.Forall₂ (Crossing.ShownBy Crossing.writtenName) (crossings 0 es) cs ∧
      (render convert vars es).count '<' = cs.length ∧
      (render convert vars es).count '>' = cs.length := by
  intro convert vars item list es
  have h : ∀ place ∈ scopes vars es, AngleFree convert place.1 place.2 := by decide +kernel
  exact ⟨by decide +kernel, h, page_well_nested convert vars es (by decide +kernel) h⟩

/-- The name of this element has two lines. Below another element the second one is moved, and the
chunks of the page do not show the name as it is. -/
theorem name_changed_at_line_feed :
    let inner : Element := ⟨{ name := "b\nc", file := "f" }, []⟩
    let es : List Element := [⟨{ name := "a", file := "f" }, [inner]⟩]
    (∀ place ∈ scopes {} es, AngleFree id place.1 place.2) ∧
    ¬ ∃ cs, chunks? (render id {} es) = some cs ∧
      List.Forall₂ (Crossing.ShownBy fun c => c.tag.name) (crossings 0 es) cs := by
  intro inner es
  refine ⟨by decide +kernel, ?_⟩
  rintro ⟨cs, hcs, hway⟩
  have hchunks : chunks? (render id {} es) =
      some ["a".toList, "b\n\tc".toList, "/b\n\tc".toList, "/a".toList] := by
    decide +kernel
  rw [hchunks, Option.some.injEq] at hcs
  subst hcs
  have hafterB := (List.forall₂_cons.mp (List.forall₂_cons.mp hway).2).2
  have hleave : "/b\n\tc".toList = "/" ++ "b\nc".toList := (List.forall₂_cons.mp hafterB).1
  exact absurd hleave (by decide)

end Page

end OutlinePage
