import OutlinePage.Text.Basic

/-!
# Ordered tables

Tables that keep the order in which their keys came: writing a present key keeps its place and
takes the new value, and a new key goes to the end.
-/

namespace OutlinePage

/-- A table with keys in `κ` and values in `α`, as the list of its entries. -/
structure Table (κ α : Type) where
  entries : List (κ × α) := []
deriving DecidableEq, Repr

namespace Table

variable {κ α : Type} [DecidableEq κ]

/-- The table without entries. -/
def empty : Table κ α := {}

instance : Inhabited (Table κ α) := ⟨empty⟩

/-- The value at a key in a list of entries. -/
def find? (k : κ) : List (κ × α) → Option α
  | [] => none
  | (k', a) :: r => if k' = k then some a else find? k r

/-- The entries after `k` is written: in its place if present, at the end otherwise. -/
def put (k : κ) (a : α) : List (κ × α) → List (κ × α)
  | [] => [(k, a)]
  | (k', a') :: r => if k' = k then (k', a) :: r else (k', a') :: put k a r

/-- The value at a key. -/
def get? (t : Table κ α) (k : κ) : Option α := find? k t.entries

/-- Is there a value at the key? -/
def contains (t : Table κ α) (k : κ) : Bool := (t.get? k).isSome

/-- Writes the value at a key. -/
def insert (t : Table κ α) (k : κ) (a : α) : Table κ α := ⟨put k a t.entries⟩

/-- Takes a key out. -/
def erase (t : Table κ α) (k : κ) : Table κ α := ⟨t.entries.filter fun e => e.1 ≠ k⟩

/-- Writes all entries of `newer` in their order, so that `newer` wins. -/
def union (t newer : Table κ α) : Table κ α :=
  newer.entries.foldl (fun acc e => acc.insert e.1 e.2) t

/-- The table with the entries written one after the other. -/
def ofList (es : List (κ × α)) : Table κ α := es.foldl (fun acc e => acc.insert e.1 e.2) empty

/-- The keys, in order. -/
def keys (t : Table κ α) : List κ := t.entries.map (·.1)

private theorem find?_put_of_ne {k k' : κ} (h : k' ≠ k) (a : α) (entries : List (κ × α)) :
    find? k (put k' a entries) = find? k entries := by
  induction entries with
  | nil => exact if_neg h
  | cons first entries ih =>
    rw [put]
    split
    · next hfirst =>
      have hne : first.1 ≠ k := fun hk => h (hfirst.symm.trans hk)
      rw [find?, find?, if_neg hne, if_neg hne]
    · rw [find?, find?, ih]

/-- Writing a value changes nothing at other keys. -/
theorem get?_insert_of_ne {k k' : κ} (h : k' ≠ k) (t : Table κ α) (a : α) :
    (t.insert k' a).get? k = t.get? k :=
  find?_put_of_ne h a t.entries

private theorem find?_put_self (k : κ) (a : α) (entries : List (κ × α)) :
    find? k (put k a entries) = some a := by
  induction entries with
  | nil => exact if_pos rfl
  | cons first entries ih =>
    rw [put]
    split
    · next hfirst => rw [find?, if_pos hfirst]
    · next hfirst => rw [find?, if_neg hfirst, ih]

/-- The value that was written is found. -/
theorem get?_insert_self (t : Table κ α) (k : κ) (a : α) : (t.insert k a).get? k = some a :=
  find?_put_self k a t.entries

/-- After a write an entry is one from before, or the new one. -/
theorem mem_put {k : κ} {a : α} {entries : List (κ × α)} {entry : κ × α}
    (h : entry ∈ put k a entries) : entry ∈ entries ∨ entry = (k, a) := by
  induction entries with
  | nil => exact Or.inr (List.mem_singleton.mp h)
  | cons first entries ih =>
    rw [put] at h
    split at h
    · next hfirst =>
      rcases List.mem_cons.mp h with rfl | h
      · exact Or.inr (congrArg (·, a) hfirst)
      · exact Or.inl (List.mem_cons_of_mem first h)
    · rcases List.mem_cons.mp h with rfl | h
      · exact Or.inl List.mem_cons_self
      · exact (ih h).imp_left (List.mem_cons_of_mem first)

/-- What is found at a key is an entry. -/
theorem mem_of_find? {k : κ} {a : α} {entries : List (κ × α)} (h : find? k entries = some a) :
    (k, a) ∈ entries := by
  induction entries with
  | nil => cases h
  | cons first entries ih =>
    rw [find?] at h
    split at h
    · next hfirst =>
      cases h
      rw [← hfirst]
      exact List.mem_cons_self
    · exact List.mem_cons_of_mem first (ih h)

/-- A key that was taken out is not found. -/
theorem get?_erase_self (t : Table κ α) (k : κ) : (t.erase k).get? k = none := by
  cases h : (t.erase k).get? k with
  | none => rfl
  | some a =>
    have hk := (List.mem_filter.mp (mem_of_find? h)).2
    exact absurd rfl (of_decide_eq_true hk)

/-- What is found after a value was written. -/
theorem get?_insert (t : Table κ α) (k k' : κ) (a : α) :
    (t.insert k a).get? k' = if k = k' then some a else t.get? k' := by
  split
  · next h => rw [← h, get?_insert_self]
  · next h => exact get?_insert_of_ne h t a

/-- The entries of two lists are written one list after the other. -/
theorem union_append (t : Table κ α) (first second : List (κ × α)) :
    t.union ⟨first ++ second⟩ = (t.union ⟨first⟩).union ⟨second⟩ :=
  List.foldl_append

private theorem union_cons (t : Table κ α) (entry : κ × α) (newer : List (κ × α)) :
    t.union ⟨entry :: newer⟩ = (t.insert entry.1 entry.2).union ⟨newer⟩ := rfl

/-- The entries of a union are among those of its two tables. -/
theorem mem_union {t : Table κ α} {newer : List (κ × α)} {entry : κ × α}
    (h : entry ∈ (t.union ⟨newer⟩).entries) : entry ∈ t.entries ∨ entry ∈ newer := by
  induction newer generalizing t with
  | nil => exact Or.inl h
  | cons first newer ih =>
    rw [union_cons] at h
    rcases ih h with h | h
    · rcases mem_put h with h | rfl
      · exact Or.inl h
      · exact Or.inr List.mem_cons_self
    · exact Or.inr (List.mem_cons_of_mem first h)

/-- What is not among the newer entries is found as before. -/
theorem get?_union_of_not_mem {k : κ} {newer : List (κ × α)} (h : k ∉ newer.map (·.1))
    (t : Table κ α) : (t.union ⟨newer⟩).get? k = t.get? k := by
  induction newer generalizing t with
  | nil => rfl
  | cons entry newer ih =>
    rw [List.map_cons, List.mem_cons, not_or] at h
    rw [union_cons, ih h.2, get?_insert_of_ne (Ne.symm h.1)]

/-- Of the newer entries at a key the last one is found. -/
theorem get?_union_last {k : κ} {after : List (κ × α)} (h : k ∉ after.map (·.1)) (t : Table κ α)
    (before : List (κ × α)) (a : α) : (t.union ⟨before ++ (k, a) :: after⟩).get? k = some a := by
  rw [union_append, union_cons, get?_union_of_not_mem h, get?_insert_self]

private theorem exists_last_entry {k : κ} {entries : List (κ × α)} (h : k ∈ entries.map (·.1)) :
    ∃ before a after, entries = before ++ (k, a) :: after ∧ k ∉ after.map (·.1) := by
  induction entries with
  | nil => cases h
  | cons entry entries ih =>
    by_cases hrest : k ∈ entries.map (·.1)
    · obtain ⟨before, a, after, rfl, hafter⟩ := ih hrest
      exact ⟨entry :: before, a, after, rfl, hafter⟩
    · rw [List.map_cons, List.mem_cons] at h
      obtain rfl := h.resolve_right hrest
      exact ⟨[], entry.2, entries, rfl, hrest⟩

/-- If all newer entries at a key hold the same value, it is found. -/
theorem get?_union_of_same {k : κ} {a : α} {newer : List (κ × α)} (hk : k ∈ newer.map (·.1))
    (h : ∀ entry ∈ newer, entry.1 = k → entry.2 = a) (t : Table κ α) :
    (t.union ⟨newer⟩).get? k = some a := by
  obtain ⟨before, a', after, rfl, hafter⟩ := exists_last_entry hk
  rw [get?_union_last hafter]
  exact congrArg some (h (k, a') (List.mem_append_right before List.mem_cons_self) rfl)

/-- Where there is a newer entry, it does not matter what was found before. -/
theorem get?_union_of_mem {k : κ} {newer : List (κ × α)} (h : k ∈ newer.map (·.1))
    (t t' : Table κ α) : (t.union ⟨newer⟩).get? k = (t'.union ⟨newer⟩).get? k := by
  obtain ⟨before, a, after, rfl, hafter⟩ := exists_last_entry h
  rw [get?_union_last hafter, get?_union_last hafter]

/-- Every key that is written is present afterwards. -/
theorem contains_union_of_mem {k : κ} {newer : List (κ × α)} (h : k ∈ newer.map (·.1))
    (t : Table κ α) : (t.union ⟨newer⟩).contains k = true := by
  obtain ⟨before, a, after, rfl, hafter⟩ := exists_last_entry h
  rw [contains, get?_union_last hafter, Option.isSome_some]

/-- What was found is found after newer entries were written. -/
theorem contains_union {t : Table κ α} {k : κ} (h : t.contains k = true)
    (newer : List (κ × α)) : (t.union ⟨newer⟩).contains k = true := by
  by_cases hk : k ∈ newer.map (·.1)
  · exact contains_union_of_mem hk t
  · rw [contains, get?_union_of_not_mem hk]
    exact h

/-- Writing entries a second time changes nothing. -/
theorem get?_union_union (t : Table κ α) (newer : List (κ × α)) (k : κ) :
    ((t.union ⟨newer⟩).union ⟨newer⟩).get? k = (t.union ⟨newer⟩).get? k := by
  by_cases hk : k ∈ newer.map (·.1)
  · exact get?_union_of_mem hk _ _
  · exact get?_union_of_not_mem hk _

private theorem nodup_put {entries : List (κ × α)} (h : (entries.map (·.1)).Nodup) (k : κ) (a : α) :
    ((put k a entries).map (·.1)).Nodup := by
  induction entries with
  | nil => exact List.nodup_cons.mpr ⟨List.not_mem_nil, List.nodup_nil⟩
  | cons first entries ih =>
    rw [put]
    split
    · exact h
    · next hfirst =>
      rw [List.map_cons, List.nodup_cons] at h ⊢
      refine ⟨?_, ih h.2⟩
      intro hmem
      obtain ⟨entry, hentry, hkey⟩ := List.mem_map.mp hmem
      rcases mem_put hentry with hold | rfl
      · exact h.1 (List.mem_map.mpr ⟨entry, hold, hkey⟩)
      · exact hfirst hkey.symm

private theorem nodup_union {t : Table κ α} (h : t.keys.Nodup) (newer : List (κ × α)) :
    (t.union ⟨newer⟩).keys.Nodup := by
  induction newer generalizing t with
  | nil => exact h
  | cons entry newer ih =>
    rw [union_cons]
    exact ih (nodup_put h entry.1 entry.2)

private theorem find?_of_mem {entries : List (κ × α)} (h : (entries.map (·.1)).Nodup) {k : κ}
    {a : α} (hmem : (k, a) ∈ entries) : find? k entries = some a := by
  induction entries with
  | nil => cases hmem
  | cons first entries ih =>
    rw [List.map_cons, List.nodup_cons] at h
    rw [find?]
    rcases List.mem_cons.mp hmem with rfl | hmem
    · exact if_pos rfl
    · have hfirst : first.1 ≠ k := by
        rintro rfl
        exact h.1 (List.mem_map.mpr ⟨_, hmem, rfl⟩)
      rw [if_neg hfirst, ih h.2 hmem]

private theorem nodup_ofList (es : List (κ × α)) : ((ofList es).entries.map (·.1)).Nodup :=
  nodup_union (t := empty) List.nodup_nil es

/-- Of the entries that were written at a key, the table has the last one. -/
theorem mem_ofList_iff {es : List (κ × α)} {k : κ} {a : α} :
    (k, a) ∈ (ofList es).entries ↔
      ∃ before after, es = before ++ (k, a) :: after ∧ k ∉ after.map (·.1) := by
  have hunion : ofList es = empty.union ⟨es⟩ := rfl
  constructor
  · intro hmem
    have hget : (ofList es).get? k = some a := find?_of_mem (nodup_ofList es) hmem
    rw [hunion] at hget
    by_cases hk : k ∈ es.map (·.1)
    · obtain ⟨before, a', after, rfl, hafter⟩ := exists_last_entry hk
      rw [get?_union_last hafter] at hget
      cases hget
      exact ⟨before, after, rfl, hafter⟩
    · rw [get?_union_of_not_mem hk] at hget
      cases hget
  · rintro ⟨before, after, rfl, hafter⟩
    refine mem_of_find? ?_
    rw [hunion]
    exact get?_union_last hafter empty before a

/-- All entries are the last at their keys exactly if entries at the same key hold the same. -/
theorem last_entries_iff {es : List (κ × α)} :
    (∀ entry ∈ es, ∃ before after, es = before ++ entry :: after ∧ entry.1 ∉ after.map (·.1)) ↔
      ∀ entry ∈ es, ∀ entry' ∈ es, entry.1 = entry'.1 → entry.2 = entry'.2 := by
  constructor
  · rintro h ⟨k, a⟩ hentry ⟨_, a'⟩ hentry' rfl
    have hfind := find?_of_mem (nodup_ofList es) (mem_ofList_iff.mpr (h _ hentry))
    have hfind' := find?_of_mem (nodup_ofList es) (mem_ofList_iff.mpr (h _ hentry'))
    exact Option.some.inj (hfind.symm.trans hfind')
  · rintro h ⟨k, a⟩ hentry
    obtain ⟨before, a', after, hsplit, hafter⟩ :=
      exists_last_entry (List.mem_map.mpr ⟨(k, a), hentry, rfl⟩)
    have hlast : (k, a') ∈ es := by
      rw [hsplit]
      exact List.mem_append_right before List.mem_cons_self
    obtain rfl : a = a' := h _ hentry _ hlast rfl
    exact ⟨before, after, hsplit, hafter⟩

end Table

end OutlinePage
