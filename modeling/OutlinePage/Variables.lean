import OutlinePage.Table
import OutlinePage.Text.Quoted

/-!
# Variables

Texts and attribute values may refer to attributes of the elements around them, as in `@{name}`.
-/

namespace OutlinePage

/-- The attributes that are in reach, by name. -/
abbrev Variables := Table Text Text

namespace Variables

/-- A character of a variable's name. -/
def isNameChar (c : Char) : Bool := Text.isAlnum c || c == '_' || c == '-' || c == '@'

/-- The reference at the beginning of a text, if one stands there: the name and what follows the
closing brace. -/
def reference? : Text → Option (Text × Text)
  | '@' :: '{' :: r =>
    match r.dropWhile isNameChar with
    | '}' :: after => some (r.takeWhile isNameChar, after)
    | _ => none
  | _ => none

/-- After a reference the text is shorter. -/
theorem reference?_lt {t name after : Text} (h : reference? t = some (name, after)) :
    after.length < t.length := by
  unfold reference? at h
  split at h
  · next r =>
    split at h
    · next a ha =>
      simp only [Option.some.injEq, Prod.mk.injEq] at h
      have hle := (List.dropWhile_sublist (l := r) isNameChar).length_le
      rw [ha, h.2] at hle
      simp only [List.length_cons] at hle ⊢
      omega
    · simp at h
  · simp at h

/-- The text with every `@{name}` replaced by the value of `name`, without its quotes. Unknown names
stay as they are, and values are not looked at again. -/
def substitute (vars : Variables) (t : Text) : Text :=
  match h : reference? t with
  | some (name, after) =>
    have := reference?_lt h
    let value := match vars.get? name with
      | some v => Text.unquote v
      | none => t.take (t.length - after.length)
    value ++ substitute vars after
  | none =>
    match t with
    | [] => []
    | c :: r => c :: substitute vars r
termination_by t.length

end Variables

end OutlinePage
