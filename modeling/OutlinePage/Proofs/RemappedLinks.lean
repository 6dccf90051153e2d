import OutlinePage.Proofs.Forest
import OutlinePage.Proofs.Routes

/-!
# Links of imported files

Reading a file for a page is reading the file on its own and changing its links, and nothing else.
A link that means the same from everywhere is kept. Any other link, seen from the page's directory,
leads where it led from the file's directory.
-/

namespace OutlinePage

namespace Route

/-- The directory of a route is followed by a slash, and begins at the root if the route does. -/
theorem exists_parent (route : Text) :
    ∃ directory, parent route = directory ++ ['/'] ∧
      ∀ rest, isRooted (directory ++ '/' :: rest) = isRooted route := by
  by_cases hslash : '/' ∈ route
  · obtain ⟨last, outer, hroute, hlast⟩ :=
      List.eq_append_cons_of_mem (List.mem_reverse.mpr hslash)
    have hroute : route = outer.reverse ++ '/' :: last.reverse := by
      rw [← List.reverse_reverse route, hroute, List.reverse_append, List.reverse_cons,
        List.append_assoc]
      rfl
    refine ⟨outer.reverse, ?_, fun rest => ?_⟩
    · have hname : Text.split '/' last.reverse = [last.reverse] :=
        Text.split_of_not_mem (by simpa using hlast)
      have hparts : (Text.split '/' route).dropLast = Text.split '/' outer.reverse := by
        rw [hroute, Text.split_append, hname, List.dropLast_concat]
      rw [parent, hparts]
      split
      · next hnil => exact absurd hnil (Text.split_ne_nil _ _)
      · exact congrArg (· ++ ['/']) (Text.join_split _)
    · rw [hroute]
      cases outer.reverse <;> rfl
  · refine ⟨".", ?_, fun rest => ?_⟩
    · rw [parent, Text.split_of_not_mem hslash]
      rfl
    · cases route with
      | nil => rfl
      | cons c route =>
        have hc : c ≠ '/' := fun h => hslash (h ▸ List.mem_cons_self)
        exact (isRooted_cons (by decide) _).trans (isRooted_cons hc route).symm

/-- What is written after a directory is followed from there. -/
theorem walk_parent_append (route link : Text) :
    walk (parent route ++ link) = (walk (parent route)).follow (Text.split '/' link) := by
  obtain ⟨directory, hparent, -⟩ := exists_parent route
  have hdirectory : walk (parent route) = walk directory := by
    rw [hparent, walk_follow]
    exact Walk.step_empty _
  rw [hdirectory, hparent, List.append_assoc]
  exact walk_follow directory link

private theorem isRooted_parent_append (route link : Text) :
    isRooted (parent route ++ link) = isRooted route := by
  obtain ⟨directory, hparent, hrooted⟩ := exists_parent route
  rw [hparent, List.append_assoc]
  exact hrooted link

private theorem isRooted_parent (route : Text) : isRooted (parent route) = isRooted route := by
  rw [← isRooted_parent_append route [], List.append_nil]

end Route

/-- The table with another value at each key. -/
def Table.mapValues {κ α : Type} (f : κ → α → α) (t : Table κ α) : Table κ α :=
  ⟨t.entries.map fun e => (e.1, f e.1 e.2)⟩

private theorem Table.mapValues_insert {κ α : Type} [DecidableEq κ] (f : κ → α → α) (t : Table κ α)
    (k : κ) (a : α) : (t.insert k a).mapValues f = (t.mapValues f).insert k (f k a) := by
  obtain ⟨entries⟩ := t
  refine congrArg Table.mk ?_
  change (Table.put k a entries).map _ = Table.put k (f k a) (entries.map _)
  induction entries with
  | nil => rfl
  | cons first entries ih =>
    obtain ⟨key, value⟩ := first
    rw [Table.put, List.map_cons, Table.put]
    split
    · next hkey =>
      rw [List.map_cons, hkey]
    · rw [List.map_cons, ih]

namespace Outline

open Route Page

/-! ### One link -/

/-- A link as seen from the page's directory leads where the link as written leads from the
directory of its file. -/
theorem normalize_linkFrom {page file : Text} (hpage : isRooted page = false)
    (hups : leadingUps (Route.normalize (parent page)) = 0) (hfile : isRooted file = false)
    (link : Text) :
    Route.normalize (parent page ++ linkFrom page file link) =
      Route.normalize (parent file ++ link) := by
  rw [leadingUps_normalize] at hups
  have hroot : isRooted (parent page) = isRooted (parent file) := by
    rw [isRooted_parent, isRooted_parent, hpage, hfile]
  have hclosed : ¬ (walk (parent page)).EndsOpen (isRooted (parent page)) := by
    rw [isRooted_parent, hpage]
    rintro ⟨-, hrooted | hup⟩
    · cases hrooted
    · exact hup hups
  have hway := follow_way_of_closed hroot (hups ▸ Nat.zero_le _) hclosed
  let route := onto (relative (parent page) (parent file)) link
  have hsame : walk (parent page ++ linkFrom page file link) = walk (parent file ++ link) := calc
    walk (parent page ++ linkFrom page file link)
        = (walk (parent page)).follow (Text.split '/' ("." ++ '/' :: Route.normalize route)) :=
      walk_parent_append _ _
    _ = (walk (parent page)).follow (Text.split '/' (Route.normalize route)) := by
      rw [Text.split_append, Walk.follow_append]
      exact congrArg (Walk.follow · _) (Walk.step_dot _)
    _ = ((walk (parent page)).follow (way (parent page) (parent file))).follow
          (Text.split '/' link) := by
      rw [follow_normalize, follow_onto, follow_relative]
    _ = walk (parent file ++ link) := by rw [hway, walk_parent_append]
  rw [Route.normalize, Route.normalize, hsame, isRooted_parent_append, isRooted_parent_append,
    hpage, hfile]

/-- A scheme: a letter, and then letters, digits and the signs `+`, `.` and `-`. -/
def IsScheme (scheme : Text) : Prop :=
  ∃ first rest, scheme = first :: rest ∧ Text.isLetter first = true ∧
    ∀ c ∈ rest, isSchemeChar c = true

/-- A link that means the same from everywhere, or whose meaning is not known yet. -/
def IsFixed (link : Text) : Prop :=
  (∃ scheme, IsScheme scheme ∧ scheme ++ [':'] <+: link) ∨ "/".toList <+: link ∨
    "#".toList <+: link ∨ "@\x7b".toList <:+: link

private theorem hasScheme_iff {link : Text} :
    hasScheme link = true ↔ ∃ scheme, IsScheme scheme ∧ scheme ++ [':'] <+: link := by
  constructor
  · intro h
    cases link with
    | nil => cases h
    | cons first rest =>
      rw [hasScheme, Bool.and_eq_true, Text.startsWith, List.isPrefixOf_iff_prefix] at h
      obtain ⟨hfirst, after, hafter⟩ := h
      refine ⟨first :: rest.takeWhile isSchemeChar,
        ⟨first, _, rfl, hfirst, fun c hc => List.mem_takeWhile_imp hc⟩, after, ?_⟩
      rw [List.append_assoc, List.cons_append]
      exact congrArg (first :: ·)
        ((congrArg (_ ++ ·) hafter).trans List.takeWhile_append_dropWhile)
  · rintro ⟨_, ⟨first, rest, rfl, hfirst, hrest⟩, after, rfl⟩
    have hcolon : isSchemeChar ':' = false := by decide
    rw [List.append_assoc, List.cons_append, hasScheme, hfirst, Bool.true_and,
      List.dropWhile_append_of_pos hrest]
    simp [hcolon, Text.startsWith]

private theorem hasInfix_iff {part text : Text} :
    Text.hasInfix part text = true ↔ part <:+: text := by
  induction text with
  | nil => rw [Text.hasInfix, List.isEmpty_iff, List.infix_nil]
  | cons c text ih =>
    rw [Text.hasInfix, Bool.or_eq_true, List.isPrefixOf_iff_prefix, ih, List.infix_cons_iff]

private theorem isFixedLink_iff {link : Text} : isFixedLink link = true ↔ IsFixed link := by
  rw [isFixedLink, Bool.or_eq_true, Bool.or_eq_true, Bool.or_eq_true, hasScheme_iff, hasInfix_iff,
    Text.startsWith, Text.startsWith, List.isPrefixOf_iff_prefix, List.isPrefixOf_iff_prefix,
    or_assoc, or_assoc, IsFixed]

private theorem unquote_quoted (text : Text) : Text.unquote ("\"" ++ text ++ "\"") = text := by
  have hquote : Text.isQuote '"' = true := by decide
  simp [Text.unquote, hquote]

/-- The value that is stored for a link of a file stands for the link as written: a fixed link is
kept, and any other link starts with `./` and leads from the page's directory where the link as
written leads from the file's. -/
def KeepsTarget (page file value stored : Text) : Prop :=
  (IsFixed (Text.unquote value) → stored = value) ∧
  (¬ IsFixed (Text.unquote value) →
    (∃ link : Text, stored = "\"./" ++ link ++ "\"") ∧
    Route.normalize (parent page ++ Text.unquote stored) =
      Route.normalize (parent file ++ Text.unquote value))

private theorem keepsTarget_remapLink {page file : Text} (hpage : isRooted page = false)
    (hups : leadingUps (Route.normalize (parent page)) = 0) (hfile : isRooted file = false)
    (value : Text) : KeepsTarget page file value (remapLink page file value) := by
  refine ⟨fun hfixed => if_pos (isFixedLink_iff.mpr hfixed), fun hfree => ?_⟩
  have hstored : remapLink page file value =
      "\"" ++ linkFrom page file (Text.unquote value) ++ "\"" :=
    if_neg (mt isFixedLink_iff.mp hfree)
  refine ⟨⟨_, hstored⟩, ?_⟩
  rw [hstored, unquote_quoted, normalize_linkFrom hpage hups hfile]

/-! ### A file with all its links -/

/-- The options for reading a file on its own. -/
def alone (o : Options) : Options := { o with page := [] }

private theorem attributeValue_alone (o : Options) (key value : Text) :
    attributeValue (alone o) key value = value := by
  rw [attributeValue, if_neg]
  simp [alone]

private theorem addPair_alone (o : Options) (attributes : Table Text Text) (pair : Text) :
    addPair o (attributes.mapValues (attributeValue o)) pair =
      (addPair (alone o) attributes pair).mapValues (attributeValue o) := by
  rw [addPair, addPair]
  split
  next key value _ =>
    rw [attributeValue_alone]
    split
    · rfl
    · exact (Table.mapValues_insert _ _ _ _).symm

private theorem readAttributes_alone (o : Options) (parts : List Text) :
    readAttributes o parts = (readAttributes (alone o) parts).mapValues (attributeValue o) := by
  rw [readAttributes, readAttributes, ← List.foldl_hom _ (addPair_alone o)]
  rfl

/-- The tag with another value for each attribute. -/
def relink (f : Text → Text → Text) (tag : Tag) : Tag :=
  { tag with attributes := tag.attributes.mapValues f }

namespace Source

variable (s : Source)

/-- The same code, read on its own. -/
def apart : Source := { s with options := alone s.options }

private theorem readTag_apart (indent : Nat) (m : Mark) :
    s.readTag indent m = (s.apart.readTag indent m).map fun t =>
      { t with tag := relink (attributeValue s.options) t.tag } := by
  rw [readTag, readTag]
  cases scanModifiers m.rest with
  | none => rfl
  | some scanned =>
    dsimp only
    rw [readAttributes_alone]
    rfl

/-- Reading a level gives the same elements with other attributes, and stops at the same place. -/
theorem readLevel_apart (indent : Nat) (lineStart rest : Text) :
    s.readLevel indent lineStart rest = (s.apart.readLevel indent lineStart rest).map fun level =>
      (mapTags (relink (attributeValue s.options)) level.1, level.2) := by
  induction hn : rest.length using Nat.strong_induction_on generalizing indent lineStart rest with
  | _ n ih =>
    subst hn
    rw [readLevel_eq, readLevel_eq s.apart]
    cases hm : nextMark 0 lineStart rest with
    | none => rfl
    | some m =>
      have hlt := nextMark_rest_lt hm
      dsimp only
      split
      · exact ih _ (Nat.lt_of_le_of_lt (List.dropWhile_sublist _).length_le hlt) _ _ _ rfl
      split
      · rfl
      rw [readTag_apart]
      cases ht : s.apart.readTag indent m with
      | error e => rfl
      | ok t =>
        have hnext := Nat.lt_of_le_of_lt (readTag_next_le ht) hlt
        -- What stands below the tag is read alike, whether or not there can be anything.
        have hbelow :
            (if t.tag.isBlock || t.next.length ≤ 1 then .ok ([], t.next)
              else s.readLevel (indent + 1) t.next t.next) =
            (if t.tag.isBlock || t.next.length ≤ 1 then .ok ([], t.next)
              else s.apart.readLevel (indent + 1) t.next t.next).map fun level =>
                (mapTags (relink (attributeValue s.options)) level.1, level.2) := by
          split
          · rfl
          · exact ih _ hnext _ _ _ rfl
        dsimp only [Except.map, relink] at hbelow ⊢
        rw [hbelow]
        generalize (if t.tag.isBlock || t.next.length ≤ 1 then Except.ok ([], t.next)
          else s.apart.readLevel (indent + 1) t.next t.next) = below
        cases below with
        | error e => rfl
        | ok below =>
          dsimp only
          split
          · next hrest =>
            rw [ih _ hrest indent _ _ rfl]
            cases s.apart.readLevel indent below.2 below.2 <;> rfl
          · rfl

end Source

/-- Reading a file for a page is reading the file on its own and changing attributes. -/
theorem readFrom_alone (source : Text) (o : Options) (indent start : Nat) :
    readFrom source o indent start = (readFrom source (alone o) indent start).map fun r =>
      { r with elements := mapTags (relink (attributeValue o)) r.elements } := by
  have hlevel := Source.readLevel_apart ⟨codeOf source, o⟩ indent
    (lineStartAt (codeOf source) start) ((codeOf source).drop start)
  rw [readFrom, readFrom, hlevel, Source.apart]
  cases Source.readLevel ⟨codeOf source, alone o⟩ indent (lineStartAt (codeOf source) start)
    ((codeOf source).drop start) <;> rfl

/-- A file that is read for a page is read as on its own, up to the values of its attributes: each
link keeps its target, and everything else is as written. -/
theorem remapped_links_keep_target (source : Text) (o : Options) (indent start : Nat)
    (hpage : o.page ≠ []) (hrelative : isRooted o.page = false)
    (hups : leadingUps (Route.normalize (parent o.page)) = 0) (hfile : isRooted o.file = false) :
    ∃ stored : Text → Text → Text,
      readFrom source o indent start =
        (readFrom source { o with page := [] } indent start).map (fun r =>
          { r with elements := mapTags (relink stored) r.elements }) ∧
      ∀ key value,
        if Vocabulary.isLinkAttribute key = true ∧ value ≠ [] then
          KeepsTarget o.page o.file value (stored key value)
        else stored key value = value := by
  refine ⟨attributeValue o, readFrom_alone source o indent start, fun key value => ?_⟩
  split
  · next hlink =>
    have hvalue : attributeValue o key value = remapLink o.page o.file value := by
      rw [attributeValue, if_pos]
      simp [hlink, hpage]
    rw [hvalue]
    exact keepsTarget_remapLink hrelative hups hfile value
  · next hother =>
    rw [attributeValue, if_neg]
    intro h
    simp only [Bool.and_eq_true, Bool.not_eq_true', List.isEmpty_eq_false_iff] at h
    exact hother ⟨h.2, h.1.1⟩

/-- A link of a file in another directory, and an attribute that is no link. -/
theorem remapped_links_keep_target_at_part :
    isRooted "site/index" = false ∧ leadingUps (Route.normalize (parent "site/index")) = 0 ∧
      isRooted "../parts/nav" = false ∧
      ∃ stored : Text → Text → Text,
        readFrom "a(href='x.html' title=x)" ⟨"../parts/nav", false, "site/index", false⟩ 0 0 =
          (readFrom "a(href='x.html' title=x)" ⟨"../parts/nav", false, [], false⟩ 0 0).map
            (fun r => { r with elements := mapTags (relink stored) r.elements }) ∧
        Route.normalize (parent "site/index" ++ Text.unquote (stored "href" "'x.html'")) =
          "../parts/x.html" ∧
        stored "title" "x" = "x" := by
  refine ⟨rfl, by decide, rfl, ?_⟩
  obtain ⟨stored, hread, hvalues⟩ :=
    remapped_links_keep_target "a(href='x.html' title=x)"
      ⟨"../parts/nav", false, "site/index", false⟩ 0 0 (by decide) rfl (by decide) rfl
  have hhref := hvalues "href" "'x.html'"
  rw [if_pos (by decide)] at hhref
  have hfree : ¬ IsFixed (Text.unquote "'x.html'") := mt isFixedLink_iff.mpr (by decide)
  have htitle := hvalues "title" "x"
  rw [if_neg (by decide)] at htitle
  exact ⟨stored, hread, (hhref.2 hfree).2.trans (by decide), htitle⟩

end Outline

end OutlinePage
