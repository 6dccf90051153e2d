/-!
# Work with a state

Work that may end with a fault keeps the state that it has reached by then. When it goes through a
list, the first fault ends it, and the items that it has come to are a beginning of the list.
-/

namespace OutlinePage

variable {ε σ α : Type}

/-- The state in which work ends, with or without a fault. -/
def stateAfter {β : Type} : EStateM.Result ε σ β → σ
  | .ok _ s => s
  | .error _ s => s

/-- The state in which work ends well. -/
def goodState {β : Type} : EStateM.Result ε σ β → Option σ
  | .ok _ s => some s
  | .error _ _ => none

/-- Work that was seen to end well, with something that was seen of its state. -/
theorem exists_good_state {β : Type} {x : EStateM ε σ Unit} {s : σ} {f : σ → β} {b : β}
    (h : (goodState (x.run s)).map f = some b) : ∃ s', x.run s = .ok () s' ∧ f s' = b := by
  cases hx : x.run s with
  | error fault s' =>
    rw [hx] at h
    cases h
  | ok u s' =>
    rw [hx] at h
    exact ⟨s', rfl, Option.some.inj h⟩

/-! ### Going through a list -/

/-- The items of a list that work comes to, each with the state that it finds. A fault ends the
work. -/
def visits (work : α → EStateM ε σ Unit) : List α → σ → List (α × σ)
  | [], _ => []
  | a :: as, s => (a, s) :: match (work a).run s with
    | .ok _ s' => visits work as s'
    | .error _ _ => []

variable {work : α → EStateM ε σ Unit}

/-- Going through a list: the first item comes first, and a fault there ends it. -/
theorem forM_cons_run (a : α) (as : List α) (s : σ) :
    ((a :: as).forM work).run s = match (work a).run s with
      | .ok _ s' => (as.forM work).run s'
      | .error f s' => .error f s' := by
  have hcons : (a :: as).forM work = (work a >>= fun _ => as.forM work) := rfl
  rw [hcons, EStateM.run_bind]
  cases (work a).run s <;> rfl

/-- What holds after each item holds after the list, with what each of them adds. -/
theorem forM_induction {β : Type} {added : α → σ → List β} {R : σ → List β → σ → Prop}
    (hrefl : ∀ s, R s [] s)
    (htrans : ∀ {s s' s'' bs bs'}, R s bs s' → R s' bs' s'' → R s (bs ++ bs') s'')
    (hwork : ∀ a s, R s (added a s) (stateAfter ((work a).run s))) (as : List α) (s : σ) :
    R s ((visits work as s).flatMap fun v => added v.1 v.2)
      (stateAfter ((as.forM work).run s)) := by
  induction as generalizing s with
  | nil => exact hrefl s
  | cons a as ih =>
    have hfirst := hwork a s
    rw [visits, List.flatMap_cons, forM_cons_run]
    cases hrun : (work a).run s with
    | ok u s' =>
      rw [hrun] at hfirst
      exact htrans hfirst (ih s')
    | error f s' =>
      rw [hrun] at hfirst
      rw [List.flatMap_nil, List.append_nil]
      exact hfirst

/-- Work that has ended well with a list has come to every item, and has ended well with each. -/
theorem visits_of_ok {as : List α} {s s' : σ} (h : (as.forM work).run s = .ok () s') :
    (visits work as s).map (·.1) = as ∧
      ∀ v ∈ visits work as s, ∃ s'', (work v.1).run v.2 = .ok () s'' := by
  induction as generalizing s with
  | nil => exact ⟨rfl, fun v hv => absurd hv List.not_mem_nil⟩
  | cons a as ih =>
    rw [forM_cons_run] at h
    cases hrun : (work a).run s with
    | error f s₁ =>
      rw [hrun] at h
      cases h
    | ok u s₁ =>
      rw [hrun] at h
      obtain ⟨hmap, hok⟩ := ih h
      rw [visits, hrun]
      refine ⟨congrArg (a :: ·) hmap, ?_⟩
      intro v hv
      rcases List.mem_cons.mp hv with rfl | hv
      · exact ⟨s₁, hrun⟩
      · exact hok v hv

/-- The items that the work comes to are those at the beginning of the list. -/
theorem visits_initial (as : List α) (s : σ) : (visits work as s).map (·.1) <+: as := by
  induction as generalizing s with
  | nil => exact List.prefix_rfl
  | cons a as ih =>
    rw [visits, List.map_cons]
    refine List.prefix_cons_inj a |>.mpr ?_
    cases (work a).run s with
    | ok u s' => exact ih s'
    | error f s' => exact List.nil_prefix

/-- Going through two lists, one after the other. -/
theorem visits_append {first second : List α} {s s' : σ} (h : (first.forM work).run s = .ok () s') :
    visits work (first ++ second) s = visits work first s ++ visits work second s' ∧
      ((first ++ second).forM work).run s = (second.forM work).run s' := by
  induction first generalizing s with
  | nil =>
    cases h
    exact ⟨rfl, rfl⟩
  | cons a first ih =>
    rw [forM_cons_run] at h
    cases hrun : (work a).run s with
    | error f s₁ =>
      rw [hrun] at h
      cases h
    | ok u s₁ =>
      rw [hrun] at h
      obtain ⟨hvisits, hforM⟩ := ih h
      rw [List.cons_append, forM_cons_run, visits, visits, hrun]
      exact ⟨congrArg ((a, s) :: ·) hvisits, hforM⟩

end OutlinePage
