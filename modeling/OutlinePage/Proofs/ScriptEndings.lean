import OutlinePage.Proofs.DiskChanges
import OutlinePage.Proofs.Pieces
import OutlinePage.Site.Build

/-!
# The names of compiled scripts

The name of a compiled script is found in two ways. A page refers to it by the text of the reference
to its source, in which `.ts` at the end becomes `.js`, and it is written to the path of that
reference with the ending `.js`, whatever the ending was. The two lead to the same place if the
reference ends in `.ts` or the name at its end in `.js`, with something before the ending; and only
then.
-/

namespace OutlinePage

/-! ### The end of a path -/

/-- What is added at the end of a text belongs to its last piece. -/
theorem Text.exists_split_append (d : Char) (t : Text) :
    ∃ front back, ∀ added : Text, d ∉ added →
      Text.split d (t ++ added) = front ++ [back ++ added] := by
  induction t with
  | nil => exact ⟨[], [], fun added hadded => Text.split_of_not_mem hadded⟩
  | cons c t ih =>
    obtain ⟨front, back, hsplit⟩ := ih
    by_cases hc : c = d
    · refine ⟨[] :: front, back, ?_⟩
      intro added hadded
      rw [List.cons_append, Text.split, if_pos hc, hsplit added hadded]
      rfl
    · cases front with
      | nil =>
        refine ⟨[], c :: back, ?_⟩
        intro added hadded
        rw [List.cons_append, Text.split, if_neg hc, hsplit added hadded]
        rfl
      | cons first front =>
        refine ⟨(c :: first) :: front, back, ?_⟩
        intro added hadded
        rw [List.cons_append, Text.split, if_neg hc, hsplit added hadded]
        rfl

namespace File.Path

/-- What is added at the end of a path's text belongs to its last part. -/
theorem exists_parts_append (t : Text) :
    ∃ front back, ∀ added : Text, '/' ∉ added → 2 ≤ added.length →
      (ofText (t ++ added)).parts = front ++ [back ++ added] := by
  obtain ⟨front, back, hsplit⟩ := Text.exists_split_append '/' t
  refine ⟨front.filter fun p => !p.isEmpty && p != ".", back, ?_⟩
  intro added hadded hlength
  have hlast : (back ++ added).length ≥ 2 := by
    rw [List.length_append]
    omega
  have hkept : (!(back ++ added).isEmpty && back ++ added != ".") = true := by
    rw [Bool.and_eq_true, Bool.not_eq_true', List.isEmpty_eq_false_iff, bne_iff_ne]
    constructor
    · intro hnil
      rw [hnil] at hlast
      cases hlast
    · intro hdot
      rw [hdot] at hlast
      exact absurd hlast (by decide)
  rw [ofText, hsplit added hadded, List.filter_append]
  exact congrArg (front.filter _ ++ ·) (List.filter_cons_of_pos hkept)

/-- The ending of a name is what follows its last dot. -/
theorem length_ending {ending : Text} (hdot : '.' ∉ ending) (front : Text) :
    ((front ++ '.' :: ending).reverse.takeWhile (· != '.')).length = ending.length := by
  rw [List.reverse_append, List.reverse_cons, List.append_assoc, List.takeWhile_append_of_pos]
  · simp
  · intro c hc
    rw [bne_iff_ne]
    rintro rfl
    exact hdot (List.mem_reverse.mp hc)

/-- A name with something before its ending. -/
theorem stem_append {front ending : Text} (hfront : front ≠ []) (hending : ending ≠ [])
    (hdot : '.' ∉ ending) : stem (front ++ '.' :: ending) = front := by
  have hall : (front ++ '.' :: ending).length = front.length + (ending.length + 1) := by
    rw [List.length_append, List.length_cons]
  have hbefore : front.length + (ending.length + 1) - ending.length - 1 = front.length := by
    omega
  have hfront' := List.length_pos_iff.mpr hfront
  have hending' := List.length_pos_iff.mpr hending
  rw [stem, length_ending hdot, hall, hbefore, if_neg, List.take_left']
  · rfl
  · rw [Bool.or_eq_true, Bool.or_eq_true, beq_iff_eq, beq_iff_eq, beq_iff_eq]
    omega

private theorem eq_child_of_name {p : Path} (h : p.name ≠ []) : p = p.parent.child p.name := by
  obtain ⟨root, parts⟩ := p
  cases parts using List.reverseRecOn with
  | nil => exact absurd rfl h
  | append_singleton parts part =>
    rw [child, parent, name, List.dropLast_concat, List.getLastD_concat]

/-- The last part of a path, if it is a name, says where the path leads. -/
theorem resolve_child_inj {here : Place} {p : Path} {name name' : Text} (hname : name ≠ "..") :
    (p.child name).resolve here = (p.child name').resolve here ↔ name = name' := by
  rw [resolve_child, resolve_child, step, if_neg hname, step]
  split
  · next hup =>
    constructor
    · intro h
      have hlength := congrArg List.length h
      rw [List.length_append, List.length_dropLast, List.length_singleton] at hlength
      omega
    · rintro rfl
      exact absurd hup hname
  · constructor
    · intro h
      exact List.singleton_inj.mp (List.append_cancel_left h)
    · rintro rfl
      rfl

/-- A path that does not begin at the root is appended. -/
theorem join_of_not_rooted {t : Text} (h : Text.startsWith "/" t = false) (p : Path) :
    p.join t = { p with parts := p.parts ++ (ofText t).parts } := by
  have hroot : (ofText t).isRooted = false := by
    cases t with
    | nil => rfl
    | cons c t =>
      have hc : (c == '/') = false := by
        rw [Text.startsWith] at h
        cases hslash : c == '/' with
        | false => rfl
        | true =>
          rw [beq_iff_eq.mp hslash] at h
          cases h
      simp [isRooted, ofText, rootOf, hc]
  rw [join, hroot]
  rfl

/-- What is added at the end of a reference belongs to the name that it leads to. -/
theorem exists_join_append (p : Path) (t : Text) :
    ∃ (above : Path) (back : Text), ∀ added : Text, '/' ∉ added → 2 ≤ added.length →
      Text.startsWith "/" (t ++ added) = false →
      p.join (t ++ added) = above.child (back ++ added) := by
  obtain ⟨front, back, hparts⟩ := exists_parts_append t
  refine ⟨{ p with parts := p.parts ++ front }, back, ?_⟩
  intro added hadded hlength hrooted
  rw [join_of_not_rooted hrooted, hparts added hadded hlength, child, List.append_assoc]

private theorem parent_child (p : Path) (name : Text) : (p.child name).parent = p := by
  rw [child, parent, List.dropLast_concat]

private theorem name_child (p : Path) (name : Text) : (p.child name).name = name := by
  rw [child, Path.name, List.getLastD_concat]

end File.Path

/-! ### The reference to a compiled script -/

namespace Page

/-- A text whose last character is no quote has no quotes to take off. -/
theorem unquote_concat {c : Char} (hc : Text.isQuote c = false) (t : Text) :
    Text.unquote (t ++ [c]) = t ++ [c] := by
  cases t with
  | nil => simp [Text.unquote]
  | cons q t =>
    rw [List.cons_append, Text.unquote, if_neg]
    rw [List.getLast?_concat]
    intro hquoted
    simp only [Bool.and_eq_true, beq_iff_eq, Option.some.injEq] at hquoted
    rw [hquoted.2, hquoted.1.1] at hc
    cases hc

/-- The quotes of a text that ends in one are taken off if it begins with the same. -/
theorem unquote_concat_quote {q : Char} (hq : Text.isQuote q = true) (t : Text) :
    Text.unquote (t ++ [q]) = if t.head? = some q then t.tail else t ++ [q] := by
  cases t with
  | nil => simp [Text.unquote]
  | cons c t =>
    by_cases hc : c = q
    · simp [Text.unquote, hc, hq]
    · simp [Text.unquote, hc, Ne.symm hc]

/-- A text is what is between its quotes, with or without them. -/
theorem unquote_cases (t : Text) : t = Text.unquote t ∨
    ∃ q, Text.isQuote q = true ∧ t = q :: Text.unquote t ++ [q] := by
  cases t using List.reverseRecOn with
  | nil => exact .inl rfl
  | append_singleton t c =>
    cases hc : Text.isQuote c with
    | false => exact .inl (unquote_concat hc t).symm
    | true =>
      rw [unquote_concat_quote hc]
      split
      · next hhead =>
        cases t with
        | nil => cases hhead
        | cons first t =>
          cases hhead
          exact .inr ⟨c, hc, rfl⟩
      · exact .inl rfl

private theorem isQuote_iff {q : Char} : Text.isQuote q = true ↔ q = '"' ∨ q = '\'' := by
  rw [Text.isQuote, Bool.or_eq_true, beq_iff_eq, beq_iff_eq]

/-- A text that ends in a quote has none of the endings. -/
theorem endsWith_quote {q : Char} (hq : Text.isQuote q = true) {ending : Text}
    (hending : ending.getLast? = some 's') {t : Text} :
    Text.endsWith ending (t ++ [q]) = false := by
  rw [Bool.eq_false_iff]
  intro hends
  obtain ⟨front, heq⟩ := Text.endsWith_iff.mp hends
  have hlast := congrArg List.getLast? heq
  rw [List.getLast?_concat, List.getLast?_append, hending] at hlast
  cases hlast
  cases hq

section

variable {n : Nat} {ending : Text} (h : ending.length = n) (front : Text)

include h

private theorem takeEnd_append : Text.takeEnd n (front ++ ending) = ending := by
  rw [Text.takeEnd, List.length_append, h, Nat.add_sub_cancel, List.drop_left]

private theorem dropEnd_append : Text.dropEnd n (front ++ ending) = front := by
  rw [Text.dropEnd, List.length_append, h, Nat.add_sub_cancel, List.take_left]

end

private theorem compiledName_plain (front : Text) :
    compiledName (front ++ ".ts") = front ++ ".js" := by
  have hsplit : front ++ ".ts" = (front ++ ".") ++ "ts" := by simp
  have hdrop : Text.dropEnd 2 (front ++ ".ts") = front ++ "." := by
    rw [hsplit]
    exact dropEnd_append rfl _
  rw [compiledName, if_pos (Text.endsWith_iff.mpr ⟨front, rfl⟩), hdrop]
  simp

private theorem compiledName_quoted {q : Char} (hq : Text.isQuote q = true) (front : Text) :
    compiledName (front ++ ".ts" ++ [q]) = front ++ ".js" ++ [q] := by
  have hplain : ¬ Text.endsWith ".ts" (front ++ ".ts" ++ [q]) = true := by
    rw [endsWith_quote hq rfl]
    exact Bool.false_ne_true
  have htake : Text.takeEnd 4 (front ++ ".ts" ++ [q]) = ".ts" ++ [q] := by
    rw [List.append_assoc]
    exact takeEnd_append rfl front
  have hlast : (Text.takeEnd 4 (front ++ ".ts" ++ [q]) == ".ts\"" ||
      Text.takeEnd 4 (front ++ ".ts" ++ [q]) == ".ts'") = true := by
    rw [htake]
    rcases isQuote_iff.mp hq with rfl | rfl <;> rfl
  have hsplit : front ++ ".ts" ++ [q] = (front ++ ".") ++ ("ts" ++ [q]) := by simp
  have hdrop : Text.dropEnd 3 (front ++ ".ts" ++ [q]) = front ++ "." := by
    rw [hsplit]
    exact dropEnd_append rfl _
  have hquote : Text.takeEnd 1 (front ++ ".ts" ++ [q]) = [q] := takeEnd_append rfl _
  rw [compiledName, if_neg hplain]
  dsimp only
  rw [if_pos hlast, hdrop, hquote]
  simp

private theorem compiledName_other {src : Text} (hplain : ∀ front, src ≠ front ++ ".ts")
    (hquoted : ∀ front q, Text.isQuote q = true → src ≠ front ++ ".ts" ++ [q]) :
    compiledName src = src := by
  have hparts : src = Text.dropEnd 4 src ++ Text.takeEnd 4 src :=
    (List.take_append_drop _ src).symm
  rw [compiledName, if_neg]
  · dsimp only
    rw [if_neg]
    rw [Bool.or_eq_true, beq_iff_eq, beq_iff_eq]
    rintro (hlast | hlast)
    · refine hquoted (Text.dropEnd 4 src) '"' rfl (hparts.trans ?_)
      rw [hlast, List.append_assoc]
      rfl
    · refine hquoted (Text.dropEnd 4 src) '\'' rfl (hparts.trans ?_)
      rw [hlast, List.append_assoc]
      rfl
  · rw [Text.endsWith_iff]
    rintro ⟨front, hfront⟩
    exact hplain front hfront

/-- The reference to a compiled script, without its quotes: `.ts` at the end has become `.js`. Where
a quote stands after the ending and none before the reference, it stays. -/
theorem unquote_compiledName (src : Text) :
    (∃ front, Text.unquote src = front ++ ".ts" ∧
        Text.unquote (compiledName src) = front ++ ".js") ∨
      (Text.endsWith ".ts" (Text.unquote src) = false ∧
        Text.unquote (compiledName src) = Text.unquote src) ∨
      ∃ front q, Text.isQuote q = true ∧ Text.unquote src = front ++ ".ts" ++ [q] ∧
        Text.unquote (compiledName src) = front ++ ".js" ++ [q] := by
  by_cases hplain : ∃ front, src = front ++ ".ts"
  · obtain ⟨front, rfl⟩ := hplain
    have hsplit (middle : Text) : front ++ (middle ++ ['s']) = (front ++ middle) ++ ['s'] :=
      (List.append_assoc ..).symm
    have hkeep (middle : Text) :
        Text.unquote (front ++ (middle ++ ['s'])) = front ++ (middle ++ ['s']) := by
      rw [hsplit]
      exact unquote_concat (by decide) _
    rw [compiledName_plain]
    exact .inl ⟨front, hkeep ".t", hkeep ".j"⟩
  by_cases hquoted : ∃ front q, Text.isQuote q = true ∧ src = front ++ ".ts" ++ [q]
  · obtain ⟨front, q, hq, rfl⟩ := hquoted
    rw [compiledName_quoted hq, unquote_concat_quote hq, unquote_concat_quote hq]
    cases front with
    | nil =>
      have hdot : '.' ≠ q := by
        rintro rfl
        cases hq
      refine .inr (.inr ⟨[], q, hq, if_neg ?_, if_neg ?_⟩) <;> simp [hdot]
    | cons c front =>
      by_cases hc : c = q
      · exact .inl ⟨front, if_pos (congrArg some hc), if_pos (congrArg some hc)⟩
      · refine .inr (.inr ⟨c :: front, q, hq, if_neg ?_, if_neg ?_⟩) <;> simp [hc]
  · have hplain' (front : Text) : src ≠ front ++ ".ts" := fun h => hplain ⟨front, h⟩
    have hquoted' (front : Text) (q : Char) (hq : Text.isQuote q = true) :
        src ≠ front ++ ".ts" ++ [q] := fun h => hquoted ⟨front, q, hq, h⟩
    rw [compiledName_other hplain' hquoted']
    refine .inr (.inl ⟨?_, rfl⟩)
    rw [Bool.eq_false_iff]
    intro hends
    obtain ⟨front, hfront⟩ := Text.endsWith_iff.mp hends
    rcases unquote_cases src with hsrc | ⟨q, hq, hsrc⟩
    · exact hplain' front (hsrc.trans hfront)
    · refine hquoted' (q :: front) q hq ?_
      rw [hsrc, hfront]
      rfl

/-- A reference and the one to its compiled script both lead outside of the site, or neither. -/
theorem isExternal_append (front added : Text) :
    Site.isExternal (front ++ ".js" ++ added) = Site.isExternal (front ++ ".ts" ++ added) := by
  cases front with
  | nil =>
    have hdot (rest : Text) : Site.isExternal ('.' :: rest) = false := by
      simp [Site.isExternal, Outline.hasScheme, Text.startsWith, Text.isLetter, List.isPrefixOf]
    exact (hdot _).trans (hdot _).symm
  | cons c front =>
    -- Both endings could be a part of a scheme, so they do not matter for where it ends.
    have hdrop {ending : Text} (hending : ending.all Outline.isSchemeChar = true) :
        Text.startsWith ":" ((front ++ ending ++ added).dropWhile Outline.isSchemeChar) =
          Text.startsWith ":" (front.dropWhile Outline.isSchemeChar ++
            if (front.dropWhile Outline.isSchemeChar).isEmpty then
              added.dropWhile Outline.isSchemeChar else []) := by
      rw [List.append_assoc, List.dropWhile_append,
        List.dropWhile_append_of_pos (List.all_eq_true.mp hending)]
      cases front.dropWhile Outline.isSchemeChar with
      | nil => rfl
      | cons x rest => rfl
    have hscheme : Outline.hasScheme (c :: front ++ ".js" ++ added) =
        Outline.hasScheme (c :: front ++ ".ts" ++ added) :=
      congrArg (Text.isLetter c && ·) ((hdrop (by decide)).trans (hdrop (by decide)).symm)
    have hroot (rest : Text) : Text.startsWith "/" (c :: rest) = ('/' == c) := by
      simp [Text.startsWith, List.isPrefixOf]
    rw [Site.isExternal, Site.isExternal, hscheme]
    simp only [List.cons_append, hroot]

/-- The reference to a compiled script leads outside of the site exactly if the one to its source
does. -/
theorem isExternal_compiledName (src : Text) :
    Site.isExternal (Text.unquote (compiledName src)) = Site.isExternal (Text.unquote src) := by
  rcases unquote_compiledName src with
    ⟨front, hsrc, hname⟩ | ⟨-, hname⟩ | ⟨front, q, -, hsrc, hname⟩
  · have hexternal := isExternal_append front []
    rw [List.append_nil, List.append_nil] at hexternal
    rw [hsrc, hname, hexternal]
  · rw [hname]
  · rw [hsrc, hname, isExternal_append]

end Page

namespace Site

/-- Does the reference end in `.ts`, or the name at its end in `.js`, with something before the
ending? -/
def HasKnownEnding (reference name : Text) : Prop :=
  Text.endsWith ".ts" reference = true ∧ name ≠ ".ts" ∨
    Text.endsWith ".js" name = true ∧ name ≠ ".js"

instance (reference name : Text) : Decidable (HasKnownEnding reference name) :=
  inferInstanceAs (Decidable (_ ∨ _))

/-- The name of a compiled script does not lead upwards. -/
theorem js_ne_up (front : Text) : front ++ ".js" ≠ ".." := by
  intro hup
  have hlast := congrArg List.getLast? hup
  rw [List.getLast?_append] at hlast
  cases hlast

private theorem stem_js_iff {name : Text} :
    File.Path.stem name ++ ".js" = name ↔ Text.endsWith ".js" name = true ∧ name ≠ ".js" := by
  constructor
  · intro h
    refine ⟨Text.endsWith_iff.mpr ⟨_, h.symm⟩, ?_⟩
    rintro rfl
    revert h
    decide
  · rintro ⟨hends, hname⟩
    obtain ⟨front, rfl⟩ := Text.endsWith_iff.mp hends
    have hfront : front ≠ [] := by
      rintro rfl
      exact hname rfl
    exact congrArg (· ++ _) (File.Path.stem_append hfront (by decide) (by decide))

/-- A name that ends in `.ts` gives the one that the page refers to, unless that is all of it. -/
theorem stem_ts_iff (front back : Text) :
    File.Path.stem (back ++ ".ts") ++ ".js" = back ++ ".js" ↔
      HasKnownEnding (front ++ ".ts") (back ++ ".ts") := by
  have hends : Text.endsWith ".ts" (front ++ ".ts") = true := Text.endsWith_iff.mpr ⟨front, rfl⟩
  cases back with
  | nil =>
    refine iff_of_false ?_ ?_
    · decide
    · rintro (⟨-, hne⟩ | ⟨hjs, -⟩)
      · exact hne rfl
      · revert hjs
        decide
  | cons c back =>
    refine iff_of_true ?_ (.inl ⟨hends, ?_⟩)
    · exact congrArg (· ++ _)
        (File.Path.stem_append (List.cons_ne_nil c back) (by decide) (by decide))
    · intro hname
      have hlength := congrArg List.length hname
      simp at hlength

/-- A reference that ends in a quote has no known ending, and the page does not refer to a name that
ends in `.js`. -/
theorem stem_quoted_iff {q : Char} (hq : Text.isQuote q = true) (front back stem : Text) :
    stem ++ ".js" = back ++ ".js" ++ [q] ↔
      HasKnownEnding (front ++ ".ts" ++ [q]) (back ++ ".ts" ++ [q]) := by
  refine iff_of_false ?_ ?_
  · intro hname
    have hjs : Text.endsWith ".js" (back ++ ".js" ++ [q]) = true :=
      Text.endsWith_iff.mpr ⟨stem, hname.symm⟩
    rw [Page.endsWith_quote hq rfl] at hjs
    cases hjs
  · rw [HasKnownEnding, Page.endsWith_quote hq rfl, Page.endsWith_quote hq rfl]
    simp

/-- The name of a compiled script, found from the path, and the one that the page refers to. -/
theorem exists_reference_name {target : File.Path} {src : Text}
    (hname : (target.parent.join (Text.unquote src)).name ≠ [])
    (hexternal : isExternal (Text.unquote src) = false) :
    ∃ name, target.parent.join (Text.unquote (Page.compiledName src)) =
        (target.parent.join (Text.unquote src)).parent.child name ∧
      (File.Path.stem (target.parent.join (Text.unquote src)).name ++ ".js" = name ↔
        HasKnownEnding (Text.unquote src) (target.parent.join (Text.unquote src)).name) := by
  have hrooted : Text.startsWith "/" (Text.unquote src) = false :=
    (Bool.or_eq_false_iff.mp hexternal).2
  have hrooted' : Text.startsWith "/" (Text.unquote (Page.compiledName src)) = false :=
    (Bool.or_eq_false_iff.mp ((Page.isExternal_compiledName src).trans hexternal)).2
  rcases Page.unquote_compiledName src with
    ⟨front, hsrc, hcompiled⟩ | ⟨hplain, hcompiled⟩ | ⟨front, q, hq, hsrc, hcompiled⟩
  · rw [hsrc] at hrooted
    rw [hcompiled] at hrooted'
    obtain ⟨above, back, hjoin⟩ := File.Path.exists_join_append target.parent front
    rw [hsrc, hcompiled, hjoin _ (by decide) (by decide) hrooted,
      hjoin _ (by decide) (by decide) hrooted', File.Path.parent_child, File.Path.name_child]
    exact ⟨back ++ ".js", rfl, stem_ts_iff front back⟩
  · rw [hcompiled]
    refine ⟨_, File.Path.eq_child_of_name hname, ?_⟩
    rw [stem_js_iff, HasKnownEnding, hplain]
    simp
  · rw [hsrc, List.append_assoc] at hrooted
    rw [hcompiled, List.append_assoc] at hrooted'
    obtain ⟨above, back, hjoin⟩ := File.Path.exists_join_append target.parent front
    have hslash {ending : Text} (hending : '/' ∉ ending) : '/' ∉ ending ++ [q] := by
      rw [List.mem_append, List.mem_singleton, not_or]
      refine ⟨hending, ?_⟩
      rintro rfl
      cases hq
    have hquoted := stem_quoted_iff hq front back
    simp only [List.append_assoc] at hquoted
    rw [hsrc, hcompiled, List.append_assoc, List.append_assoc,
      hjoin _ (hslash (by decide)) (by simp) hrooted,
      hjoin _ (hslash (by decide)) (by simp) hrooted', File.Path.parent_child,
      File.Path.name_child]
    exact ⟨_, rfl, hquoted _⟩

/-- A compiled script is where its page refers to it exactly if the reference has a known ending. -/
theorem scriptTarget_at_reference {target path : File.Path} {src : Text}
    (htarget : scriptTarget? target (Text.unquote src) = some path)
    (hexternal : isExternal (Text.unquote src) = false) (here : File.Place) :
    path.resolve here =
        (target.parent.join (Text.unquote (Page.compiledName src))).resolve here ↔
      HasKnownEnding (Text.unquote src) (target.parent.join (Text.unquote src)).name := by
  rw [scriptTarget?, File.Path.withEnding] at htarget
  split at htarget
  · cases htarget
  · next hname =>
    cases htarget
    rw [List.isEmpty_iff] at hname
    obtain ⟨name, hreference, hagree⟩ := exists_reference_name hname hexternal
    rw [hreference, ← hagree]
    exact File.Path.resolve_child_inj (js_ne_up _)

end Site

end OutlinePage
