import OutlinePage.Proofs.FlatReading

/-!
# Trees of elements

What a list of elements holds at any depth: its tags, each before those below it. Changing every tag
by a function changes their list by that function, and the height of the tree stays.
-/

namespace OutlinePage.Page

/-- The tags of all elements at any depth, each before those below it. -/
def tags (es : List Element) : List Tag := (Outline.flatten 0 es).map (·.2)

private theorem map_snd_flatten (depth : Nat) (es : List Element) :
    (Outline.flatten depth es).map (·.2) = tags es := by
  rw [tags]
  generalize 0 = depth'
  induction es using Outline.forest_induction generalizing depth depth' with
  | nil => rfl
  | cons tag children rest ihc ihr =>
    simp only [Outline.flatten_cons, List.map_cons, List.map_append]
    rw [ihc (depth + 1) (depth' + 1), ihr depth depth']

/-- There are no tags in no elements. -/
@[simp] theorem tags_nil : tags [] = [] := rfl

/-- The tags of an element come before those of the elements after it, its own first. -/
@[simp] theorem tags_cons (tag : Tag) (children rest : List Element) :
    tags (⟨tag, children⟩ :: rest) = tag :: (tags children ++ tags rest) := by
  rw [tags, Outline.flatten_cons, List.map_cons, List.map_append, map_snd_flatten, map_snd_flatten]

/-- The tags of two lists of elements are those of the first and then of the second. -/
@[simp] theorem tags_append (es es' : List Element) : tags (es ++ es') = tags es ++ tags es' := by
  induction es with
  | nil => rfl
  | cons e es ih =>
    obtain ⟨tag, children⟩ := e
    rw [List.cons_append, tags_cons, tags_cons, ih, List.cons_append, List.append_assoc]

private theorem tags_cons_eq (e : Element) (es : List Element) :
    tags (e :: es) = tags [e] ++ tags es :=
  tags_append [e] es

/-- A tag among some elements is in one of them. -/
theorem mem_tags {es : List Element} {t : Tag} : t ∈ tags es ↔ ∃ e ∈ es, t ∈ tags [e] := by
  induction es with
  | nil => simp
  | cons e es ih =>
    simp only [tags_cons_eq e es, List.mem_append, ih, List.mem_cons, exists_eq_or_imp]

/-- A tag in one of some elements is among them. -/
theorem mem_tags_of_mem {e : Element} {es : List Element} (he : e ∈ es) {t : Tag}
    (ht : t ∈ tags [e]) : t ∈ tags es :=
  mem_tags.mpr ⟨e, he, ht⟩

/-- An element has its own tag. -/
theorem tag_mem_tags (e : Element) : e.tag ∈ tags [e] := by
  obtain ⟨tag, children⟩ := e
  rw [tags_cons]
  exact List.mem_cons_self

/-- An element has the tags of its children. -/
theorem mem_tags_of_children {e : Element} {t : Tag} (ht : t ∈ tags e.children) : t ∈ tags [e] := by
  obtain ⟨tag, children⟩ := e
  rw [tags_cons]
  exact List.mem_cons_of_mem tag (List.mem_append_left _ ht)

/-! ### Every tag changed -/

mutual

/-- The element with a function applied to its tag and to those below it. -/
def mapElement (f : Tag → Tag) : Element → Element
  | ⟨tag, children⟩ => ⟨f tag, mapTags f children⟩

/-- The elements with a function applied to every tag. -/
def mapTags (f : Tag → Tag) : List Element → List Element
  | [] => []
  | e :: es => mapElement f e :: mapTags f es

end

/-- In no elements there is nothing to change. -/
@[simp] theorem mapTags_nil (f : Tag → Tag) : mapTags f [] = [] := rfl

/-- Tags are changed in an element, in its children, and in the elements after it. -/
@[simp] theorem mapTags_cons (f : Tag → Tag) (tag : Tag) (children rest : List Element) :
    mapTags f (⟨tag, children⟩ :: rest) = ⟨f tag, mapTags f children⟩ :: mapTags f rest := rfl

/-- Tags are changed in each of two lists of elements. -/
@[simp] theorem mapTags_append (f : Tag → Tag) (es es' : List Element) :
    mapTags f (es ++ es') = mapTags f es ++ mapTags f es' := by
  induction es with
  | nil => rfl
  | cons e es ih => exact congrArg (mapElement f e :: ·) ih

/-- The tags after a change are the changed ones, in the same order. -/
theorem tags_mapTags (f : Tag → Tag) (es : List Element) :
    tags (mapTags f es) = (tags es).map f := by
  induction es using Outline.forest_induction with
  | nil => rfl
  | cons tag children rest ihc ihr =>
    rw [mapTags_cons, tags_cons, tags_cons, ihc, ihr, List.map_cons, List.map_append]

/-- Changed tags stand at the depths from before. -/
theorem flatten_mapTags (f : Tag → Tag) (depth : Nat) (es : List Element) :
    Outline.flatten depth (mapTags f es) = (Outline.flatten depth es).map (Prod.map id f) := by
  induction es using Outline.forest_induction generalizing depth with
  | nil => rfl
  | cons tag children rest ihc ihr => simp [ihc, ihr]

/-! ### Heights -/

mutual

/-- How many levels an element has. -/
def heightElement : Element → Nat
  | ⟨_, children⟩ => height children + 1

/-- How many levels some elements have. -/
def height : List Element → Nat
  | [] => 0
  | e :: es => max (heightElement e) (height es)

end

/-- No elements have no height. -/
@[simp] theorem height_nil : height [] = 0 := rfl

/-- An element is one higher than its children. -/
@[simp] theorem height_cons (tag : Tag) (children rest : List Element) :
    height (⟨tag, children⟩ :: rest) = max (height children + 1) (height rest) := rfl

/-- Two lists of elements are as high as the higher one. -/
theorem height_append (es es' : List Element) :
    height (es ++ es') = max (height es) (height es') := by
  induction es with
  | nil => exact (Nat.zero_max _).symm
  | cons e es ih =>
    rw [List.cons_append, height, height, ih, Nat.max_assoc]

/-- Elements are within a height if the children of each are below it. -/
theorem height_le_iff {es : List Element} {n : Nat} :
    height es ≤ n ↔ ∀ e ∈ es, height e.children < n := by
  induction es with
  | nil => simp
  | cons e es ih =>
    obtain ⟨tag, children⟩ := e
    rw [height_cons, Nat.max_le, ih, List.forall_mem_cons]
    exact Iff.rfl

end OutlinePage.Page
