import OutlinePage.Proofs.Forest
import OutlinePage.Proofs.IndentationStyle
import OutlinePage.Proofs.Passages
import OutlinePage.Proofs.Printing

/-!
# Outlines below each other

An outline that begins with a tag in its first column can be put below any other outline that can be
read. The first line of the second outline ends every block of text and every level that is still
open at the end of the first one, so the elements of both come one after the other, and only the
line numbers of the second outline change.
-/

namespace OutlinePage.Outline

open Page

/-- Does the source begin, in its first column, with the name of a tag? -/
def beginsWithTag (source : Text) : Bool := isTagName (source.takeWhile isNameChar)

/-- The code of such a source is the source with a line feed after it. -/
theorem Tabbed.codeOf_eq {source : Text} (h : Tabbed source) :
    codeOf source = source ++ ['\n'] := by
  rw [codeOf, h.normalizeIndentation_eq]
  rfl

private theorem Tabbed.append {first second : Text} (h : Tabbed first) (h' : Tabbed second) :
    Tabbed (first ++ '\n' :: second) where
  no_return := by simp [h.no_return, h'.no_return]
  no_space := by
    intro line hline
    rw [Text.split_append, List.mem_append] at hline
    exact hline.elim (h.no_space line) (h'.no_space line)

private theorem beginsWithTag_append {source : Text} (h : beginsWithTag source = true) :
    beginsWithTag (source ++ ['\n']) = true := by
  have hnewline : isNameChar '\n' = false := by decide
  rwa [beginsWithTag, takeWhile_append_stop hnewline]

/-- A tag in the first column ends every block of text. -/
theorem stopsBlock_of_beginsWithTag {source : Text} (h : beginsWithTag source = true)
    (depth : Nat) : StopsBlock depth source := by
  cases source with
  | nil => exact .inl rfl
  | cons c source =>
    right
    by_cases hc : isNameChar c = true
    · have hline : inLine c = true := inLine_of_isNameChar hc
      have htab : (c == '\t') = false := by
        rw [beq_eq_false_iff_ne]
        rintro rfl
        revert hc
        decide
      simp [endsBlock, hline, htab, Text.isBlankText, isBlank_of_isNameChar hc]
    · simp [beginsWithTag, isTagName, hc] at h

/-- The way through two outlines below each other: the one through the first, then the one through
the second, with its lines so many lines further down. -/
theorem Reaches.concat {o : Options} {first second : Text} {tags tags' : List (Nat × Tag)}
    {p q : Spot} (h : Reaches o ⟨1, 0, first⟩ tags p) (hp : p.rest = [])
    (h' : Reaches o ⟨1, 0, second⟩ tags' q) (hbegin : beginsWithTag second = true) :
    ∃ room, Reaches o ⟨1, 0, first ++ second⟩
      (tags ++ tags'.map (Prod.map id (movedTag (first.count '\n'))))
      ⟨q.line + first.count '\n', room, q.rest⟩ := by
  obtain ⟨between, hrest, -, hline, hchange⟩ := h.change_tail
  rw [hp, List.append_nil] at hrest
  dsimp only at hrest hline
  subst hrest
  have hfirst := hchange second fun depth _ => stopsBlock_of_beginsWithTag hbegin depth
  obtain ⟨room, hsecond⟩ := (h'.movedDown (first.count '\n')).change_room hbegin p.room
  rw [hline] at hfirst
  exact ⟨room, hfirst.trans hsecond⟩

/-- Two outlines without spaces in their indentation, of which the first can be read and the second
begins with a tag in its first column, can be put below each other. The elements are those of the
first and then those of the second, with all line numbers of the second raised by the number of
lines of the first. If the second outline cannot be read, neither can the two together, with the
same mistake so many lines further down. -/
theorem outlines_concatenate (first second : Text) (o : Options) (elements : List Element)
    (hfirst : Tabbed first) (hsecond : Tabbed second) (hbegin : beginsWithTag second = true)
    (hread : read first o = .ok elements) :
    (∀ others, read second o = .ok others →
      read (first ++ '\n' :: second) o =
        .ok (elements ++ mapTags (movedTag (first.count '\n' + 1)) others)) ∧
    ∀ e, read second o = .error e →
      ∃ line column, e = unmatchedAt o.file line column ∧
        read (first ++ '\n' :: second) o =
          .error (unmatchedAt o.file (line + (first.count '\n' + 1)) column) := by
  obtain ⟨p, hp, hway⟩ := read_eq_ok_iff.mp hread
  rw [hfirst.codeOf_eq] at hway
  have hcode : codeOf (first ++ '\n' :: second) = (first ++ ['\n']) ++ (second ++ ['\n']) := by
    rw [(hfirst.append hsecond).codeOf_eq]
    simp
  have hcount : (first ++ ['\n']).count '\n' = first.count '\n' + 1 := by simp
  constructor
  · intro others hothers
    obtain ⟨q, hq, hway'⟩ := read_eq_ok_iff.mp hothers
    rw [hsecond.codeOf_eq] at hway'
    obtain ⟨room, hboth⟩ := hway.concat hp hway' (beginsWithTag_append hbegin)
    rw [← hcode, hcount, ← flatten_mapTags, ← flatten_append] at hboth
    exact read_eq_ok_iff.mpr ⟨⟨_, room, q.rest⟩, hq, hboth⟩
  · intro e he
    obtain ⟨tags, q, hq, hway', rfl⟩ := read_eq_error_iff.mp he
    rw [hsecond.codeOf_eq] at hway'
    obtain ⟨room, hboth⟩ := hway.concat hp hway' (beginsWithTag_append hbegin)
    rw [← hcode, hcount] at hboth
    refine ⟨q.line, columnAfterName q.rest, rfl, ?_⟩
    exact read_eq_error_iff.mpr ⟨_, ⟨_, room, q.rest⟩, hq, hboth, rfl⟩

/-- At the end of the first outline a block of text is open, two levels deep. -/
theorem outlines_concatenate_at_open_block :
    ∃ elements others,
      Tabbed "ul\n\tli.\n\t\ta (\n" ∧ Tabbed "p x\n\tb" ∧ Tabbed "p x\n\tb(" ∧
      read "ul\n\tli.\n\t\ta (\n" { file := "i" } = .ok elements ∧
      read "p x\n\tb" { file := "i" } = .ok others ∧
      read "ul\n\tli.\n\t\ta (\n\np x\n\tb" { file := "i" } =
        .ok (elements ++ mapTags (movedTag 4) others) ∧
      read "p x\n\tb(" { file := "i" } = .error (unmatchedAt "i" 2 3) ∧
      ∃ line column, unmatchedAt "i" 2 3 = unmatchedAt "i" line column ∧
        read "ul\n\tli.\n\t\ta (\n\np x\n\tb(" { file := "i" } =
          .error (unmatchedAt "i" (line + 4) column) := by
  have hfirst : Tabbed "ul\n\tli.\n\t\ta (\n" := ⟨by decide, by decide⟩
  have hsecond : Tabbed "p x\n\tb" := ⟨by decide, by decide⟩
  have hbroken : Tabbed "p x\n\tb(" := ⟨by decide, by decide⟩
  have herror : read "p x\n\tb(" { file := "i" } = .error (unmatchedAt "i" 2 3) := by
    have h : (read "p x\n\tb(" { file := "i" }).map (fun _ => ()) =
        .error (unmatchedAt "i" 2 3) := by
      decide +kernel
    cases hread : read "p x\n\tb(" { file := "i" } with
    | error e =>
      rw [hread] at h
      rw [Except.error.inj h]
    | ok others =>
      rw [hread] at h
      cases h
  have hok : (read "ul\n\tli.\n\t\ta (\n" { file := "i" }).isOk = true := by decide +kernel
  have hok' : (read "p x\n\tb" { file := "i" }).isOk = true := by decide +kernel
  cases hread : read "ul\n\tli.\n\t\ta (\n" { file := "i" } with
  | error e =>
    rw [hread] at hok
    cases hok
  | ok elements =>
    cases hothers : read "p x\n\tb" { file := "i" } with
    | error e =>
      rw [hothers] at hok'
      cases hok'
    | ok others =>
      exact ⟨elements, others, hfirst, hsecond, hbroken, rfl, rfl,
        (outlines_concatenate _ _ _ _ hfirst hsecond (by decide) hread).1 _ hothers, herror,
        (outlines_concatenate _ _ _ _ hfirst hbroken (by decide) hread).2 _ herror⟩

end OutlinePage.Outline
