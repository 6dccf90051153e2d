import OutlinePage.Text.Basic

/-!
# Pieces of a text

Splitting a text at a character and joining the pieces undo each other, as long as no piece holds
that character.
-/

namespace OutlinePage.Text

variable {d : Char}

/-- There is always a piece. -/
theorem split_ne_nil (d : Char) (t : Text) : split d t ≠ [] := by
  cases t with
  | nil => exact List.cons_ne_nil _ _
  | cons c t =>
    rw [split]
    split
    · exact List.cons_ne_nil _ _
    · split <;> exact List.cons_ne_nil _ _

/-- Where the text begins with the divider, the first piece is empty. -/
theorem split_cons_self (t : Text) : split d (d :: t) = [] :: split d t := by
  rw [split, if_pos rfl]

/-- A text is split at every separator. -/
theorem split_append (s t : Text) : split d (s ++ d :: t) = split d s ++ split d t := by
  induction s with
  | nil => exact split_cons_self t
  | cons c s ih =>
    rw [List.cons_append, split, split, ih]
    split
    · rfl
    · cases h : split d s with
      | nil => exact absurd h (split_ne_nil d s)
      | cons p ps => rfl

/-- A text without the divider is its only piece. -/
theorem split_of_not_mem {t : Text} (h : d ∉ t) : split d t = [t] := by
  induction t with
  | nil => rfl
  | cons c t ih =>
    rw [List.mem_cons, not_or] at h
    rw [split, if_neg (Ne.symm h.1), ih h.2]

/-- No piece holds the separator. -/
theorem not_mem_of_mem_split {p t : Text} (h : p ∈ split d t) : d ∉ p := by
  induction t generalizing p with
  | nil =>
    rw [List.mem_singleton.mp h]
    exact List.not_mem_nil
  | cons c t ih =>
    rw [split] at h
    split at h
    · rcases List.mem_cons.mp h with rfl | h
      · exact List.not_mem_nil
      · exact ih h
    · next hc =>
      split at h
      · next hnil => exact absurd hnil (split_ne_nil d t)
      · next first others hsplit =>
        rcases List.mem_cons.mp h with rfl | h
        · rw [List.mem_cons, not_or]
          exact ⟨Ne.symm hc, ih (hsplit ▸ List.mem_cons_self)⟩
        · exact ih (hsplit ▸ List.mem_cons_of_mem first h)

/-- The characters of a piece are characters of the text. -/
theorem mem_of_mem_split {p t : Text} (h : p ∈ split d t) {c : Char} (hc : c ∈ p) : c ∈ t := by
  induction t generalizing p with
  | nil =>
    rw [List.mem_singleton.mp h] at hc
    exact hc
  | cons x t ih =>
    rw [split] at h
    split at h
    · rcases List.mem_cons.mp h with rfl | h
      · cases hc
      · exact List.mem_cons_of_mem x (ih h hc)
    · split at h
      · next hnil => exact absurd hnil (split_ne_nil d t)
      · next first others hsplit =>
        rcases List.mem_cons.mp h with rfl | h
        · rcases List.mem_cons.mp hc with rfl | hc
          · exact List.mem_cons_self
          · exact List.mem_cons_of_mem x (ih (hsplit ▸ List.mem_cons_self) hc)
        · exact List.mem_cons_of_mem x (ih (hsplit ▸ List.mem_cons_of_mem first h) hc)

private theorem join_cons (p : Text) {ps : List Text} (h : ps ≠ []) :
    join [d] (p :: ps) = p ++ d :: join [d] ps := by
  cases ps with
  | nil => exact absurd rfl h
  | cons q qs => rw [join, List.append_assoc, List.singleton_append]

/-- What is in joined pieces is in one of them or in what joins them. -/
theorem mem_of_mem_join {c : Char} {ps : List Text} (h : c ∈ join [d] ps) :
    c = d ∨ ∃ p ∈ ps, c ∈ p := by
  induction ps with
  | nil => cases h
  | cons p ps ih =>
    cases ps with
    | nil => exact Or.inr ⟨p, List.mem_cons_self, h⟩
    | cons q qs =>
      rw [join_cons p (List.cons_ne_nil q qs), List.mem_append, List.mem_cons] at h
      rcases h with h | h | h
      · exact Or.inr ⟨p, List.mem_cons_self, h⟩
      · exact Or.inl h
      · refine (ih h).imp_right ?_
        rintro ⟨r, hr, hc⟩
        exact ⟨r, List.mem_cons_of_mem p hr, hc⟩

/-- Splitting gives back the pieces that were joined. -/
theorem split_join {ps : List Text} (hne : ps ≠ []) (h : ∀ p ∈ ps, d ∉ p) :
    split d (join [d] ps) = ps := by
  induction ps with
  | nil => exact absurd rfl hne
  | cons p ps ih =>
    have hp : d ∉ p := h p List.mem_cons_self
    cases ps with
    | nil => exact split_of_not_mem hp
    | cons q qs =>
      rw [join_cons p (List.cons_ne_nil q qs), split_append, split_of_not_mem hp,
        ih (List.cons_ne_nil q qs) fun r hr => h r (List.mem_cons_of_mem p hr)]
      rfl

/-- Joining gives back the text that was split. -/
theorem join_split (t : Text) : join [d] (split d t) = t := by
  induction t with
  | nil => rfl
  | cons c t ih =>
    rw [split]
    split
    · next hc =>
      rw [join_cons [] (split_ne_nil d t), ih, hc]
      rfl
    · cases h : split d t with
      | nil => exact absurd h (split_ne_nil d t)
      | cons p ps =>
        rw [h] at ih
        cases ps with
        | nil => exact congrArg (c :: ·) ih
        | cons q qs =>
          rw [join_cons p (List.cons_ne_nil q qs)] at ih
          rw [join_cons _ (List.cons_ne_nil q qs), List.cons_append, ih]

end OutlinePage.Text
