import OutlinePage.Page.Compile
import OutlinePage.Proofs.Forest
import OutlinePage.Proofs.Scopes

/-!
# Variables are lexically scoped

A name in a text or in an attribute value means the closest attribute of this name around its
element. What is written for some elements depends on their scope only through the names that are
free in them, which are those that no attribute on the way to their use gives a value.
-/

namespace OutlinePage.Page

mutual

/-- The names that are free in an element: those that its tag refers to, and those that are free
below it and not among its attributes. -/
def freeNamesOf : Element → List Text
  | ⟨t, children⟩ =>
    tagReferences t ++ (freeNames children).filter fun name => !t.attributes.keys.contains name

/-- The names that are free in some elements. -/
def freeNames : List Element → List Text
  | [] => []
  | e :: es => freeNamesOf e ++ freeNames es

end

private theorem mem_freeNames_cons {name : Text} {tag : Tag} {children rest : List Element} :
    name ∈ freeNames (⟨tag, children⟩ :: rest) ↔
      name ∈ tagReferences tag ∨ (name ∈ freeNames children ∧ name ∉ tag.attributes.keys) ∨
        name ∈ freeNames rest := by
  simp [freeNames, freeNamesOf]

/-! ### Names that are bound on the way -/

mutual

/-- The tags of an element and of those below it, each with the attributes on the way to it. -/
def surroundedOf (around : List Text) : Element → List (List Text × Tag)
  | ⟨t, children⟩ => (around, t) :: surrounded (around ++ t.attributes.keys) children

/-- The tags of all elements, each with the names of the attributes on the way to it: those given
and those of the elements around it. -/
def surrounded (around : List Text) : List Element → List (List Text × Tag)
  | [] => []
  | e :: es => surroundedOf around e ++ surrounded around es

end

/-- Every tag that refers to the name stands below an element that has it among its attributes. -/
def Shadowed (name : Text) (es : List Element) : Prop :=
  ∀ place ∈ surrounded [] es, name ∈ tagReferences place.2 → name ∈ place.1

/-- A name is free unless it is bound around the elements or on the way to each of its uses. -/
theorem exists_unbound_use {name : Text} {around : List Text} {es : List Element} :
    (∃ place ∈ surrounded around es, name ∈ tagReferences place.2 ∧ name ∉ place.1) ↔
      name ∉ around ∧ name ∈ freeNames es := by
  induction es using Outline.forest_induction generalizing around with
  | nil => simp [surrounded, freeNames]
  | cons tag children rest ihc ihr =>
    have hsplit : (∃ place ∈ surrounded around (⟨tag, children⟩ :: rest),
          name ∈ tagReferences place.2 ∧ name ∉ place.1) ↔
        (name ∈ tagReferences tag ∧ name ∉ around) ∨
          (name ∉ around ++ tag.attributes.keys ∧ name ∈ freeNames children) ∨
            (name ∉ around ∧ name ∈ freeNames rest) := by
      rw [← ihc, ← ihr]
      simp [surrounded, surroundedOf, or_and_right, exists_or]
    rw [hsplit, mem_freeNames_cons, List.mem_append]
    grind

private theorem Shadowed.not_mem_freeNames {name : Text} {es : List Element}
    (h : Shadowed name es) :
    name ∉ freeNames es := by
  intro hfree
  obtain ⟨place, hplace, huse, hbound⟩ :=
    exists_unbound_use.mpr ⟨List.not_mem_nil, hfree⟩
  exact hbound (h place hplace huse)

/-! ### Scopes that agree -/

/-- With either scope the same is written, also by a converter that may give up on a text. -/
def WrittenAlike (a b : Variables) (es : List Element) : Prop :=
  (∀ convert : Text → Text, render convert a es = render convert b es) ∧
    ∀ convert : Converter, render? convert a es = render? convert b es

/-- Scopes agree below an element if they agree on the names that are not among its attributes. -/
theorem agreeOn_union {a b : Variables} {name : Text} {attributes : Table Text Text}
    (h : name ∉ attributes.keys → a.AgreeOn b name) :
    Variables.AgreeOn (a.union attributes) (b.union attributes) name := by
  by_cases hname : name ∈ attributes.keys
  · exact congrArg (Option.map Text.unquote) (Table.get?_union_of_mem hname a b)
  · have ha := Table.get?_union_of_not_mem hname a
    have hb := Table.get?_union_of_not_mem hname b
    rw [Variables.AgreeOn, ha, hb]
    exact h hname

/-- Scopes that agree on the free names give the same elements and the same texts to convert. -/
theorem renderEach_congr {a b : Variables} {es : List Element}
    (h : ∀ name ∈ freeNames es, a.AgreeOn b name) :
    (∀ convert, renderEach convert a es = renderEach convert b es) ∧
      eachProse a es = eachProse b es := by
  induction es using Outline.forest_induction generalizing a b with
  | nil => exact ⟨fun _ => rfl, rfl⟩
  | cons tag children rest ihc ihr =>
    have htag : ∀ name ∈ tagReferences tag, a.AgreeOn b name := fun name hname =>
      h name (mem_freeNames_cons.mpr (Or.inl hname))
    obtain ⟨hchildren, hprose⟩ := ihc fun name hname =>
      agreeOn_union fun hbound => h name (mem_freeNames_cons.mpr (Or.inr (Or.inl ⟨hname, hbound⟩)))
    obtain ⟨hrest, hproseRest⟩ := ihr fun name hname =>
      h name (mem_freeNames_cons.mpr (Or.inr (Or.inr hname)))
    constructor
    · intro convert
      rw [renderEach, renderEach, renderElement, renderElement, openTag_congr htag,
        renderText_congr convert htag, hchildren, hrest]
    · rw [eachProse, eachProse, elementProse, elementProse, tagProse_congr htag, hprose, hproseRest]

private theorem writtenAlike_of_agree {a b : Variables} {es : List Element}
    (h : ∀ name ∈ freeNames es, a.AgreeOn b name) : WrittenAlike a b es := by
  obtain ⟨heach, hprose⟩ := renderEach_congr h
  have hrender (convert : Text → Text) : render convert a es = render convert b es := by
    rw [render, render, heach]
  refine ⟨hrender, fun convert => ?_⟩
  rw [render?, render?, hprose, hrender]

/-- Variables are lexically scoped. What is written for some elements is the same in any two scopes
that agree on their free names: in both a name has no value, or values that are equal but for their
quotes. So the value of a name that is shadowed on the way to each of its uses has no effect: two
scopes that differ in this value only, or in whether there is one, are written alike. -/
theorem variables_lexically_scoped (es : List Element) :
    (∀ a b : Variables, (∀ name ∈ freeNames es, a.AgreeOn b name) → WrittenAlike a b es) ∧
      ∀ name, Shadowed name es → ∀ a b : Variables,
        (∀ other, other ≠ name → a.AgreeOn b other) → WrittenAlike a b es := by
  refine ⟨fun a b => writtenAlike_of_agree, ?_⟩
  intro name hshadowed a b hagree
  refine writtenAlike_of_agree fun other hother => hagree other ?_
  rintro rfl
  exact hshadowed.not_mem_freeNames hother

/-- The attributes of the outer element refer to `y`, its child to `x` and `y`. Only `y` is free,
and the two scopes have the same value for it in different quotes. -/
theorem variables_lexically_scoped_at_shadowed :
    let inner : Tag := { name := "b", file := "f", text := some "@\x7bx\x7d@\x7by\x7d" }
    let outer : Tag :=
      { name := "a", file := "f", attributes := ⟨[("x", "2"), ("t", "@\x7by\x7d")]⟩ }
    let es : List Element := [⟨outer, [⟨inner, []⟩]⟩]
    let a : Variables := ⟨[("x", "1"), ("y", "\"v\"")]⟩
    let b : Variables := ⟨[("y", "'v'")]⟩
    freeNames es = ["y".toList, "y".toList] ∧ Shadowed "x" es ∧ WrittenAlike a b es ∧
      WrittenAlike a (a.erase "x") es ∧
      render id a es = "<a x=2 t=v>\n\t<b>2v</b>\n</a>".toList := by
  intro inner outer es a b
  have hfree : freeNames es = ["y".toList, "y".toList] := by decide +kernel
  have hshadowed : Shadowed "x" es := by
    unfold Shadowed
    decide +kernel
  have hagree : ∀ name ∈ freeNames es, a.AgreeOn b name := by
    rw [hfree]
    simp only [List.forall_mem_cons, List.not_mem_nil, false_implies, implies_true, and_true,
      and_self]
    unfold Variables.AgreeOn
    decide +kernel
  have herase : ∀ other, other ≠ "x".toList → a.AgreeOn (a.erase "x") other := by
    intro other hother
    have hx : a.erase "x" = ⟨[("y", "\"v\"")]⟩ := by decide +kernel
    have hget : a.get? other = Table.find? other [("y".toList, "\"v\"".toList)] :=
      if_neg (Ne.symm hother)
    rw [Variables.AgreeOn, hx, hget]
    rfl
  exact ⟨hfree, hshadowed, (variables_lexically_scoped es).1 a b hagree,
    (variables_lexically_scoped es).2 "x" hshadowed a _ herase, by decide +kernel⟩

end OutlinePage.Page
