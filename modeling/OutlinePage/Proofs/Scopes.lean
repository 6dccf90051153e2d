import OutlinePage.Page.Render

/-!
# What a text refers to

What becomes of a text depends on the names that it refers to and on nothing else: scopes that agree
on them give the same text, and so the same opening tag and the same contents of an element.
-/

namespace OutlinePage

namespace Variables

/-- The names that a text refers to, in order. -/
def references (t : Text) : List Text :=
  match h : reference? t with
  | some (name, after) =>
    have := reference?_lt h
    name :: references after
  | none =>
    match t with
    | [] => []
    | _ :: r => references r
termination_by t.length

/-- The two scopes have the same value for a name, apart from quotes, or none. -/
def AgreeOn (a b : Variables) (name : Text) : Prop :=
  (a.get? name).map Text.unquote = (b.get? name).map Text.unquote

/-- In no text there is nothing to fill in. -/
theorem substitute_nil (vars : Variables) : vars.substitute [] = [] := by
  rw [substitute]
  rfl

/-- A reference gives way to its value, or stays. -/
theorem substitute_reference {t name after : Text} (h : reference? t = some (name, after))
    (vars : Variables) :
    vars.substitute t =
      ((vars.get? name).map Text.unquote).getD (t.take (t.length - after.length)) ++
        vars.substitute after := by
  rw [substitute]
  split
  · next name' after' h' =>
    cases h.symm.trans h'
    cases vars.get? name <;> rfl
  · next h' => cases h.symm.trans h'

/-- A character where no reference begins stays. -/
theorem substitute_cons {c : Char} {r : Text} (h : reference? (c :: r) = none)
    (vars : Variables) : vars.substitute (c :: r) = c :: vars.substitute r := by
  rw [substitute]
  split
  · next h' => cases h.symm.trans h'
  · rfl

/-- Scopes that agree on what a text refers to give the same text. -/
theorem substitute_congr {a b : Variables} (t : Text)
    (h : ∀ name ∈ references t, AgreeOn a b name) : a.substitute t = b.substitute t := by
  fun_induction references t with
  | case1 t name after href hlt ih =>
    rw [List.forall_mem_cons] at h
    rw [substitute_reference href, substitute_reference href, h.1, ih h.2]
  | case2 => rw [substitute_nil, substitute_nil]
  | case3 c r href ih => rw [substitute_cons href, substitute_cons href, ih h]

/-- A text that refers to nothing stays as it is. -/
theorem substitute_of_references {t : Text} (h : references t = []) (vars : Variables) :
    vars.substitute t = t := by
  fun_induction references t with
  | case1 => cases h
  | case2 => exact substitute_nil vars
  | case3 c r href ih => rw [substitute_cons href, ih h]

/-! ### References and lines -/

/-- A reference is a name in braces after an at sign, and what follows it is the rest. -/
theorem reference?_eq_some {t name after : Text} :
    reference? t = some (name, after) ↔
      (∀ c ∈ name, isNameChar c = true) ∧ t = '@' :: '{' :: (name ++ '}' :: after) := by
  constructor
  · intro h
    unfold reference? at h
    split at h
    · next r =>
      split at h
      · next a ha =>
        simp only [Option.some.injEq, Prod.mk.injEq] at h
        obtain ⟨rfl, rfl⟩ := h
        refine ⟨List.all_eq_true.mp List.all_takeWhile, ?_⟩
        rw [← ha, List.takeWhile_append_dropWhile]
      · cases h
    · cases h
  · rintro ⟨hname, rfl⟩
    have hend : ¬isNameChar '}' = true := by decide
    simp only [reference?, List.takeWhile_append_of_pos hname, List.dropWhile_append_of_pos hname,
      List.takeWhile_cons_of_neg hend, List.dropWhile_cons_of_neg hend, List.append_nil]

/-- No reference goes on in the next line. -/
theorem reference?_append_newline (s t : Text) :
    reference? (s ++ '\n' :: t) = (reference? s).map (Prod.map id (· ++ '\n' :: t)) := by
  cases h : reference? s with
  | some found =>
    obtain ⟨name, after⟩ := found
    obtain ⟨hname, rfl⟩ := reference?_eq_some.mp h
    exact reference?_eq_some.mpr ⟨hname, by simp⟩
  | none =>
    -- A reference at the beginning ends before the line feed, so it would stand in `s`.
    refine Option.eq_none_iff_forall_ne_some.mpr fun found hfound => ?_
    obtain ⟨name, after⟩ := found
    obtain ⟨hname, heq⟩ := reference?_eq_some.mp hfound
    have hspelled : s ++ '\n' :: t = ('@' :: '{' :: (name ++ ['}'])) ++ after := by simp [heq]
    have hline : '\n' ∉ '@' :: '{' :: (name ++ ['}']) := by
      have hname : '\n' ∉ name := fun hc => by cases hname '\n' hc
      simp [hname]
    have hlonger (rest : Text) (hs : s = '@' :: '{' :: (name ++ ['}']) ++ rest) : False := by
      have hfull : s = '@' :: '{' :: (name ++ '}' :: rest) := by simp [hs]
      cases h.symm.trans (reference?_eq_some.mpr ⟨hname, hfull⟩)
    rcases List.append_eq_append_iff.mp hspelled with ⟨rest, hs, hrest⟩ | ⟨rest, hs, -⟩
    · cases rest with
      | nil => exact hlonger [] (by simpa using hs.symm)
      | cons c rest =>
        obtain rfl : '\n' = c := (List.cons.inj hrest).1
        exact hline (by simp [hs])
    · exact hlonger rest hs

/-- In no text there are no references. -/
theorem references_nil : references [] = [] := by
  rw [references]
  rfl

private theorem references_reference {t name after : Text} (h : reference? t = some (name, after)) :
    references t = name :: references after := by
  rw [references]
  split
  · next h' =>
    cases h.symm.trans h'
    rfl
  · next h' => cases h.symm.trans h'

private theorem references_cons {c : Char} {r : Text} (h : reference? (c :: r) = none) :
    references (c :: r) = references r := by
  rw [references]
  split
  · next h' => cases h.symm.trans h'
  · rfl

/-- No reference goes over the end of a line. -/
theorem references_append_newline (s t : Text) :
    references (s ++ '\n' :: t) = references s ++ references t := by
  fun_induction references s with
  | case1 s name after href _ ih =>
    have hafter := reference?_append_newline s t
    rw [href] at hafter
    rw [references_reference hafter, ih]
    rfl
  | case2 => exact references_cons rfl
  | case3 c r href ih =>
    have hnone := reference?_append_newline (c :: r) t
    rw [href, List.cons_append] at hnone
    rw [List.cons_append, references_cons hnone, ih]

/-- There are no references in indentation. -/
theorem references_indent {indent : Text} (h : indent.all Text.isIndent = true) (rest : Text) :
    references (indent ++ rest) = references rest := by
  induction indent with
  | nil => rfl
  | cons c indent ih =>
    rw [List.all_cons, Bool.and_eq_true] at h
    have hnone : reference? (c :: (indent ++ rest)) = none := by
      refine Option.eq_none_iff_forall_ne_some.mpr fun found hfound => ?_
      obtain ⟨-, hspelled⟩ := reference?_eq_some.mp hfound
      rw [(List.cons.inj hspelled).1] at h
      cases h.1
    rw [List.cons_append, references_cons hnone, ih h.2]

end Variables

namespace Page

/-- The names that the attributes of a tag and its text refer to. -/
def tagReferences (t : Tag) : List Text :=
  t.attributes.entries.flatMap (fun entry => Variables.references entry.2) ++
    Variables.references (t.text?.getD [])

/-- An opening tag depends only on the variables that the tag refers to. -/
theorem openTag_congr {a b : Variables} {t : Tag}
    (h : ∀ name ∈ tagReferences t, a.AgreeOn b name) : openTag a t = openTag b t := by
  have hentry (entry : Text × Text) (he : entry ∈ t.attributes.entries) :
      renderAttribute a entry = renderAttribute b entry := by
    have hvalue := Variables.substitute_congr entry.2 fun name hname =>
      h name (List.mem_append_left _ (List.mem_flatMap.mpr ⟨entry, he, hname⟩))
    rw [renderAttribute, renderAttribute, hvalue]
  have hentries : t.attributes.entries.flatMap (renderAttribute a) =
      t.attributes.entries.flatMap (renderAttribute b) := by
    rw [List.flatMap, List.flatMap, List.map_congr_left hentry]
  rw [openTag, openTag, hentries]

/-- So does the text of a tag. -/
theorem renderText_congr (convert : Text → Text) {a b : Variables} {t : Tag}
    (h : ∀ name ∈ tagReferences t, a.AgreeOn b name) :
    renderText convert a t = renderText convert b t := by
  rw [renderText, renderText]
  cases htext : t.text? with
  | none => rfl
  | some text =>
    have hvalue := Variables.substitute_congr text fun name hname =>
      h name (List.mem_append_right _ (by rw [htext]; exact hname))
    simp only [hvalue]

/-- So does its prose. -/
theorem tagProse_congr {a b : Variables} {t : Tag}
    (h : ∀ name ∈ tagReferences t, a.AgreeOn b name) : tagProse a t = tagProse b t := by
  rw [tagProse, tagProse]
  cases htext : t.text? with
  | none => rfl
  | some text =>
    have hvalue := Variables.substitute_congr text fun name hname =>
      h name (List.mem_append_right _ (by rw [htext]; exact hname))
    simp only [hvalue]

end Page

end OutlinePage
