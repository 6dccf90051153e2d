import Mathlib.Data.List.Chain
import OutlinePage.Proofs.Scopes

/-!
# Substitution in a single pass

A text is put together from literals and placeholders. Substitution fills every placeholder in its
place, all of them at once: it finds the placeholders that were put there and no others, and what it
has filled in is not looked at again, whatever it holds and whatever it comes to stand next to.
-/

namespace OutlinePage.Variables

/-- A piece of a text: a literal, in which no placeholder begins, or a placeholder with the name of
a variable, possibly empty. -/
inductive Segment where
  | literal (text : Text) (plain : Text.hasInfix "@\x7b" text = false)
  | placeholder (name : Text) (word : name.all isNameChar = true)

namespace Segment

/-- Is the segment a literal? -/
def isLiteral : Segment → Bool
  | literal _ _ => true
  | placeholder _ _ => false

/-- The segment as it stands in the text. -/
def written : Segment → Text
  | literal text _ => text
  | placeholder name _ => '@' :: '{' :: (name ++ ['}'])

/-- What becomes of the segment: a placeholder gives way to the value of its variable without
quotes, or stays if there is none. -/
def filled (vars : Variables) (segment : Segment) : Text :=
  match segment with
  | literal text _ => text
  | placeholder name _ =>
    match vars.get? name with
    | some value => Text.unquote value
    | none => segment.written

end Segment

/-- No two literals stand next to each other. -/
def Separated (segments : List Segment) : Prop :=
  segments.IsChain fun a b => ¬(a.isLiteral = true ∧ b.isLiteral = true)

/-- A literal stays as it is, unless its last character and the rest begin a placeholder. -/
theorem substitute_literal {text rest : Text} (hplain : Text.hasInfix "@\x7b" text = false)
    (hrest : rest.head? ≠ some '{') (vars : Variables) :
    vars.substitute (text ++ rest) = text ++ vars.substitute rest := by
  induction text with
  | nil => rfl
  | cons c text ih =>
    rw [Text.hasInfix, Bool.or_eq_false_iff] at hplain
    have hnone : reference? (c :: (text ++ rest)) = none := by
      refine Option.eq_none_iff_forall_ne_some.mpr fun found hfound => ?_
      obtain ⟨-, hspelled⟩ := reference?_eq_some.mp hfound
      obtain ⟨rfl, hnext⟩ := List.cons.inj hspelled
      -- The brace after the `@` stands in the literal or begins the rest.
      cases text with
      | nil =>
        rw [List.nil_append] at hnext
        exact hrest (congrArg List.head? hnext)
      | cons d text =>
        obtain ⟨rfl, -⟩ := List.cons.inj hnext
        cases hplain.1
    rw [List.cons_append, substitute_cons hnone, ih hplain.2, List.cons_append]

private theorem substitute_placeholder {name : Text} (word : name.all isNameChar = true)
    (rest : Text) (vars : Variables) :
    vars.substitute ((Segment.placeholder name word).written ++ rest) =
      (Segment.placeholder name word).filled vars ++ vars.substitute rest := by
  have hspelled : (Segment.placeholder name word).written ++ rest =
      '@' :: '{' :: (name ++ '}' :: rest) := by
    simp [Segment.written]
  have href := reference?_eq_some.mpr ⟨List.all_eq_true.mp word, hspelled⟩
  rw [substitute_reference href, Segment.filled, List.length_append, Nat.add_sub_cancel,
    List.take_left]
  cases vars.get? name <;> rfl

/-- What follows a literal begins with a placeholder or is empty. -/
theorem Separated.head?_written {text : Text} {plain : Text.hasInfix "@\x7b" text = false}
    {segments : List Segment} (h : Separated (.literal text plain :: segments)) :
    (segments.flatMap Segment.written).head? ≠ some '{' := by
  intro hhead
  cases segments with
  | nil => cases hhead
  | cons segment segments =>
    cases segment with
    | literal => exact (List.isChain_cons_cons.mp h).1 ⟨rfl, rfl⟩
    | placeholder => cases Option.some.inj hhead

/-- Substitution is a single simultaneous pass: in a text of literals and placeholders, no two
literals next to each other, the literals stay, each placeholder whose variable has a value gives
way to that value without its quotes, and the others stay. Values that hold placeholders, or that
make one up together with the text around them, are no exception. -/
theorem substitution_in_single_pass {segments : List Segment} (h : Separated segments)
    (vars : Variables) :
    vars.substitute (segments.flatMap Segment.written) =
      segments.flatMap (Segment.filled vars) := by
  induction segments with
  | nil => exact substitute_nil vars
  | cons segment segments ih =>
    rw [List.flatMap_cons, List.flatMap_cons, ← ih h.tail]
    cases segment with
    | literal text plain => exact substitute_literal plain h.head?_written vars
    | placeholder name word => exact substitute_placeholder word _ vars

/-- The value of `x` is an `@` before a brace of the text, and that of the empty name is a reference
to `x`. Neither is filled in, and `u@` has no value. -/
theorem substitution_in_single_pass_at_joined :
    let segments : List Segment :=
      [.literal "a@" rfl, .placeholder "x" rfl, .literal "\x7by\x7d, " rfl, .placeholder "" rfl,
        .placeholder "y" rfl, .placeholder "u@" rfl]
    let vars : Variables := ⟨[("x", "'@'"), ("y", "2"), ("", "@\x7bx\x7d")]⟩
    Separated segments ∧
      segments.flatMap Segment.written =
        "a@@\x7bx\x7d\x7by\x7d, @\x7b\x7d@\x7by\x7d@\x7bu@\x7d".toList ∧
      vars.substitute (segments.flatMap Segment.written) =
        "a@@\x7by\x7d, @\x7bx\x7d2@\x7bu@\x7d".toList := by
  intro segments vars
  have hseparated : Separated segments := by
    unfold Separated
    decide
  refine ⟨hseparated, by decide, ?_⟩
  rw [substitution_in_single_pass hseparated]
  decide

end OutlinePage.Variables
