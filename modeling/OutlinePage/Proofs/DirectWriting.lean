import OutlinePage.Proofs.Forest
import OutlinePage.Page.Render

/-!
# Writing pages in one pass

A page is written from the inside out: the text of the children is made first, and then every line
of it is moved one level deeper, once for each element around it. A second writer knows the depth of
what it writes and puts all tabs in their place at once. The two give the same text.
-/

namespace OutlinePage

namespace Text

/-- A line feed, and the tabs before a line at the given depth. -/
def lineBreak (depth : Nat) : Text := '\n' :: List.replicate depth '\t'

/-- The text with the given number of tabs in front of every line but the first. -/
def indented (depth : Nat) (t : Text) : Text := expand '\n' (lineBreak depth) t

/-- Nothing stays nothing. -/
@[simp] theorem indented_nil (depth : Nat) : indented depth [] = [] := rfl

/-- Two texts are indented one by one. -/
@[simp] theorem indented_append (depth : Nat) (s t : Text) :
    indented depth (s ++ t) = indented depth s ++ indented depth t :=
  List.flatMap_append

/-- A line feed is followed by the tabs of the depth. -/
@[simp] theorem indented_newline (depth : Nat) (t : Text) :
    indented depth ('\n' :: t) = lineBreak depth ++ indented depth t := rfl

/-- Any other character stays as it is. -/
theorem indented_cons {c : Char} (h : c ≠ '\n') (depth : Nat) (t : Text) :
    indented depth (c :: t) = c :: indented depth t := by
  rw [indented, expand, List.flatMap_cons, if_neg h, List.singleton_append]
  rfl

/-- A text without a line feed stays as it is. -/
theorem indented_of_not_mem {t : Text} (h : '\n' ∉ t) (depth : Nat) : indented depth t = t := by
  induction t with
  | nil => rfl
  | cons c t ih =>
    rw [List.mem_cons, not_or] at h
    rw [indented_cons (Ne.symm h.1), ih h.2]

/-- At the outermost depth a text stays as it is. -/
theorem indented_zero (t : Text) : indented 0 t = t := by
  induction t with
  | nil => rfl
  | cons c t ih =>
    by_cases hc : c = '\n'
    · subst hc
      rw [indented_newline, ih]
      rfl
    · rw [indented_cons hc, ih]

private theorem indented_lineBreak (depth more : Nat) :
    indented depth (lineBreak more) = lineBreak (depth + more) := by
  have htabs : '\n' ∉ List.replicate more '\t' := by simp
  rw [lineBreak, indented_newline, indented_of_not_mem htabs, lineBreak, lineBreak,
    List.cons_append, List.replicate_append_replicate]

/-- Lines that are moved twice have the tabs of both moves. -/
theorem indented_indented (depth more : Nat) (t : Text) :
    indented depth (indented more t) = indented (depth + more) t := by
  induction t with
  | nil => rfl
  | cons c t ih =>
    by_cases hc : c = '\n'
    · subst hc
      rw [indented_newline, indented_append, indented_lineBreak, ih, indented_newline]
    · rw [indented_cons hc, indented_cons hc, ih, indented_cons hc]

end Text

namespace Page

open Text

mutual

/-- Writes an element at the given depth. -/
def writeElement (convert : Text → Text) (depth : Nat) (vars : Variables) : Element → Text
  | ⟨t, children⟩ =>
    let inner : Text :=
      if children.isEmpty then []
      else
        lineBreak (depth + 1) ++
          writeAll convert (depth + 1) (vars.union t.attributes) children ++ lineBreak depth
    indented depth (openTag vars t) ++ indented depth (renderText convert vars t) ++ inner ++
      indented depth (closeTag t children.isEmpty)

/-- Writes elements at the given depth, each in a line of its own. No text that was written is
changed again. -/
def writeAll (convert : Text → Text) (depth : Nat) (vars : Variables) : List Element → Text
  | [] => []
  | [e] => writeElement convert depth vars e
  | e :: next :: es =>
    writeElement convert depth vars e ++ lineBreak depth ++
      writeAll convert depth vars (next :: es)

end

/-- Moving the lines of an element to a depth is writing it there, if that holds for its
children. -/
theorem indented_renderElement (convert : Text → Text) (depth : Nat) (vars : Variables)
    (tag : Tag) {children : List Element}
    (hchildren : indented (depth + 1) (render convert (vars.union tag.attributes) children) =
      writeAll convert (depth + 1) (vars.union tag.attributes) children) :
    indented depth (renderElement convert vars ⟨tag, children⟩) =
      writeElement convert depth vars ⟨tag, children⟩ := by
  have hlines (lines : Text) :
      indented depth ("\n\t" ++ indentLines lines ++ "\n") =
        lineBreak (depth + 1) ++ indented (depth + 1) lines ++ lineBreak depth := by
    have hopen : indented depth "\n\t" = lineBreak (depth + 1) := indented_lineBreak depth 1
    have hclose : indented depth "\n" = lineBreak depth := indented_lineBreak depth 0
    rw [indented_append, indented_append, hopen, hclose]
    exact congrArg (lineBreak (depth + 1) ++ · ++ lineBreak depth)
      (indented_indented depth 1 lines)
  rw [renderElement, writeElement]
  simp only [indented_append]
  congr 2
  split
  · rfl
  · rw [← hchildren]
    exact hlines _

/-- Moving the lines of a page to a depth is writing it there. -/
theorem indented_render (convert : Text → Text) (depth : Nat) (vars : Variables)
    (es : List Element) :
    indented depth (render convert vars es) = writeAll convert depth vars es := by
  induction es using Outline.forest_induction generalizing depth vars with
  | nil => rfl
  | cons tag children rest ihc ihr =>
    have helement := indented_renderElement convert depth vars tag (ihc (depth + 1) _)
    cases rest with
    | nil => exact helement
    | cons next others =>
      rw [writeAll, ← helement, ← ihr depth vars]
      have hbreak : indented depth "\n" = lineBreak depth := indented_lineBreak depth 0
      rw [← hbreak, ← indented_append, ← indented_append]
      rfl

/-- Moving lines deeper once for each element around them comes to writing them at their depth. For
every converter from Markdown, every scope and all elements, the page is what the writer gives that
breaks each line at its depth: between siblings, in tags, in texts and around children. -/
theorem rendered_in_one_pass (convert : Text → Text) (vars : Variables) (es : List Element) :
    render convert vars es = writeAll convert 0 vars es := by
  rw [← indented_render, indented_zero]

end Page

end OutlinePage
