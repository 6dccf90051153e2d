import OutlinePage.Proofs.Pieces
import OutlinePage.Route

/-!
# Following routes

A route is followed segment by segment, from wherever one stands. The normal form of a route leads
where the route leads, from everywhere, and following the route from a directory to a target ends at
the target. The exception is a directory whose normal form ends with a slash, that is the root or a
place reached by `..` alone: its last, empty segment counts as a level, so the route from there
leads one level too high.
-/

namespace OutlinePage.Route

/-- A segment that goes down: neither empty nor made of dots that have a meaning. -/
def IsName (segment : Text) : Prop := segment ≠ ".." ∧ segment ≠ "." ∧ segment ≠ []

namespace Walk

/-- Where the segments lead from a place. -/
def follow (w : Walk) (segments : List Text) : Walk := segments.foldl step w

/-- The segments that lead to a place: first up, then down. -/
def segments (w : Walk) : List Text := List.replicate w.up "..".toList ++ w.down.reverse

/-- A place that is reached by names without slashes. -/
def Plain (w : Walk) : Prop := ∀ name ∈ w.down, IsName name ∧ '/' ∉ name

/-- Without segments one stays. -/
@[simp] theorem follow_nil (w : Walk) : w.follow [] = w := rfl

/-- Segments are followed one after the other. -/
@[simp] theorem follow_cons (w : Walk) (segment : Text) (segments : List Text) :
    w.follow (segment :: segments) = (w.step segment).follow segments := rfl

/-- Following two routes is following one after the other. -/
theorem follow_append (w : Walk) (first second : List Text) :
    w.follow (first ++ second) = (w.follow first).follow second := List.foldl_append

/-- An empty segment leads nowhere. -/
@[simp] theorem step_empty (w : Walk) : w.step [] = w := by
  rw [step, if_neg (by decide), if_pos (Or.inr rfl)]

/-- Nor does a dot. -/
@[simp] theorem step_dot (w : Walk) : w.step "." = w := by
  rw [step, if_neg (by decide), if_pos (Or.inl rfl)]

/-- A name leads one level down. -/
theorem step_name {segment : Text} (h : IsName segment) (w : Walk) :
    w.step segment = { w with down := segment :: w.down } := by
  rw [step, if_neg h.1, if_neg (not_or.mpr h.2)]

/-- Above the start, `..` leads one level further up. -/
theorem step_up_nil {w : Walk} (h : w.down = []) : w.step ".." = ⟨w.up + 1, []⟩ := by
  rw [step, if_pos rfl, h]

/-- Below the start, `..` leads out of the last name. -/
theorem step_up_cons {w : Walk} {name : Text} {outer : List Text} (h : w.down = name :: outer) :
    w.step ".." = ⟨w.up, outer⟩ := by
  rw [step, if_pos rfl, h]

/-- Going down and up again leads back. -/
theorem follow_back {names : List Text} (h : ∀ name ∈ names, IsName name) (w : Walk) :
    (w.follow names).follow (names.map fun _ => "..".toList) = w := by
  induction names generalizing w with
  | nil => rfl
  | cons name names ih =>
    have hname := h name List.mem_cons_self
    have hnames := fun n hn => h n (List.mem_cons_of_mem name hn)
    -- The last level up undoes the first level down.
    have hshift : (name :: names).map (fun _ => "..".toList) =
        names.map (fun _ => "..".toList) ++ ["..".toList] := by
      rw [List.map_const', List.map_const', List.length_cons, List.replicate_succ']
    rw [hshift, follow_append, follow_cons w, ih hnames, step_name hname, follow_cons, follow_nil,
      step_up_cons rfl]

private theorem plain_empty : Plain {} := fun _ h => absurd h List.not_mem_nil

private theorem Plain.step {w : Walk} (hw : w.Plain) {segment : Text} (hs : '/' ∉ segment) :
    (w.step segment).Plain := by
  by_cases hup : segment = ".."
  · subst hup
    cases hdown : w.down with
    | nil =>
      rw [step_up_nil hdown]
      exact fun _ h => absurd h List.not_mem_nil
    | cons name outer =>
      rw [step_up_cons hdown]
      exact fun n hn => hw n (hdown ▸ List.mem_cons_of_mem name hn)
  · by_cases hstay : segment = "." ∨ segment = []
    · rw [Walk.step, if_neg hup, if_pos hstay]
      exact hw
    · have hname : IsName segment := ⟨hup, not_or.mp hstay⟩
      rw [step_name hname]
      intro n hn
      rcases List.mem_cons.mp hn with rfl | hn
      · exact ⟨hname, hs⟩
      · exact hw n hn

private theorem Plain.follow {w : Walk} (hw : w.Plain) {segments : List Text}
    (hs : ∀ segment ∈ segments, '/' ∉ segment) : (w.follow segments).Plain := by
  induction segments generalizing w with
  | nil => exact hw
  | cons segment segments ih =>
    exact ih (hw.step (hs segment List.mem_cons_self))
      fun s h => hs s (List.mem_cons_of_mem segment h)

/-- The segments that lead to a place one step further lead there from everywhere. -/
theorem follow_segments_step {v : Walk} (hv : v.Plain) (segment : Text) (w : Walk) :
    w.follow (v.step segment).segments = (w.follow v.segments).step segment := by
  by_cases hup : segment = ".."
  · subst hup
    cases hdown : v.down with
    | nil =>
      rw [step_up_nil hdown, segments, segments, hdown, List.replicate_succ', List.reverse_nil,
        List.append_nil, List.append_nil, follow_append]
      rfl
    | cons name outer =>
      have hname := (hv name (hdown ▸ List.mem_cons_self)).1
      rw [step_up_cons hdown, segments, segments, hdown, List.reverse_cons, ← List.append_assoc,
        follow_append _ _ [name], follow_cons, follow_nil, step_name hname, step_up_cons rfl]
  · by_cases hstay : segment = "." ∨ segment = []
    · rw [step, if_neg hup, if_pos hstay, step, if_neg hup, if_pos hstay]
    · have hname : IsName segment := ⟨hup, not_or.mp hstay⟩
      rw [step_name hname, segments, List.reverse_cons, ← List.append_assoc, follow_append]
      rfl

private theorem follow_segments_follow {v : Walk} (hv : v.Plain) {segments : List Text}
    (hs : ∀ segment ∈ segments, '/' ∉ segment) (w : Walk) :
    w.follow (v.follow segments).segments = (w.follow v.segments).follow segments := by
  induction segments generalizing v with
  | nil => rfl
  | cons segment segments ih =>
    have hstep := hv.step (hs segment List.mem_cons_self)
    rw [follow_cons, ih hstep fun s h => hs s (List.mem_cons_of_mem segment h),
      follow_segments_step hv, follow_cons]

end Walk

/-! ### The text of a walk -/

/-- What a route leads down to are names. -/
theorem plain_walk (route : Text) : (walk route).Plain :=
  Walk.plain_empty.follow fun _ h => Text.not_mem_of_mem_split h

/-- Where a route leads is reached by the same segments from everywhere. -/
theorem follow_walk_segments (w : Walk) (route : Text) :
    w.follow (walk route).segments = w.follow (Text.split '/' route) :=
  Walk.follow_segments_follow Walk.plain_empty (fun _ h => Text.not_mem_of_mem_split h) w

/-- A route after another one is followed from where that one leads. -/
theorem walk_follow (a b : Text) :
    walk (a ++ '/' :: b) = (walk a).follow (Text.split '/' b) := by
  rw [walk, Text.split_append]
  exact Walk.follow_append {} _ _

/-- The empty segment in front of the first slash. -/
def rootSegments (rooted : Bool) : List Text := if rooted then [[]] else []

private theorem split_ups (n : Nat) (t : Text) :
    Text.split '/' ((List.replicate n "../".toList).flatten ++ t) =
      List.replicate n "..".toList ++ Text.split '/' t := by
  induction n with
  | zero => rfl
  | succ n ih =>
    have hup (rest : Text) : "../".toList ++ rest = "..".toList ++ '/' :: rest := rfl
    rw [List.replicate_succ, List.flatten_cons, List.append_assoc, hup, Text.split_append, ih,
      Text.split_of_not_mem (by decide), List.replicate_succ]
    rfl

private theorem split_names {w : Walk} (hw : w.Plain) :
    Text.split '/' (Text.join "/" w.down.reverse) =
      if w.down = [] then [[]] else w.down.reverse := by
  split
  · next h =>
    rw [h]
    rfl
  · next h =>
    exact Text.split_join (by simpa using h) fun name hn => (hw name (List.mem_reverse.mp hn)).2

private theorem split_render {w : Walk} (hw : w.Plain) (rooted : Bool) :
    Text.split '/' (w.render rooted) = rootSegments rooted ++
      (List.replicate w.up "..".toList ++ if w.down = [] then [[]] else w.down.reverse) := by
  rw [← split_names hw, ← split_ups]
  cases rooted with
  | false => rfl
  | true => exact Text.split_cons_self _

private theorem follow_rootSegments (w : Walk) (rooted : Bool) :
    w.follow (rootSegments rooted) = w := by
  cases rooted with
  | false => rfl
  | true => exact w.step_empty

/-- The normal form of a route leads where the route leads, from everywhere. -/
theorem follow_normalize (w : Walk) (route : Text) :
    w.follow (Text.split '/' (normalize route)) = w.follow (Text.split '/' route) := by
  rw [← follow_walk_segments w route, normalize, split_render (plain_walk route),
    Walk.follow_append, follow_rootSegments, Walk.segments, Walk.follow_append, Walk.follow_append]
  split
  · next h =>
    rw [h]
    exact Walk.step_empty _
  · rfl

/-- The normal form of a route leads where the route leads. -/
theorem walk_normalize (route : Text) : walk (normalize route) = walk route :=
  follow_normalize {} route

/-- A route that begins with anything but a slash is not rooted. -/
theorem isRooted_cons {c : Char} (h : c ≠ '/') (rest : Text) : isRooted (c :: rest) = false := by
  simp [isRooted, Text.startsWith, List.isPrefixOf, h.symm]

/-- The text of a place is rooted as it is asked for. -/
theorem isRooted_render {w : Walk} (hw : w.Plain) (rooted : Bool) :
    isRooted (w.render rooted) = rooted := by
  cases rooted with
  | true => rfl
  | false =>
    obtain ⟨up, down⟩ := w
    cases up with
    | succ n => rfl
    | zero =>
      rw [Walk.render]
      cases hnames : down.reverse with
      | nil => rfl
      | cons name names =>
        obtain ⟨hname, hslash⟩ := hw name (List.mem_reverse.mp (hnames ▸ List.mem_cons_self))
        obtain ⟨c, rest, rfl⟩ := List.exists_cons_of_ne_nil hname.2.2
        have hc : c ≠ '/' := fun h => hslash (h ▸ List.mem_cons_self)
        cases names <;> exact isRooted_cons hc _

/-- A normal form is its own normal form. -/
theorem normalize_normalize (route : Text) : normalize (normalize route) = normalize route := by
  rw [normalize, walk_normalize, normalize, isRooted_render (plain_walk route)]

/-- The number of `..` at the beginning of a route, after the root. -/
def leadingUps (route : Text) : Nat :=
  (((Text.split '/' route).dropWhile (·.isEmpty)).takeWhile (· == "..".toList)).length

/-- What follows the leading `..` of a place is a name, or empty. -/
theorem takeWhile_names {w : Walk} (hw : w.Plain) :
    let names := if w.down = [] then [[]] else w.down.reverse
    names.takeWhile (· == "..".toList) = [] ∧
      (names.dropWhile (·.isEmpty)).takeWhile (· == "..".toList) = [] := by
  intro names
  cases hnames : w.down.reverse with
  | nil =>
    have hempty : names = [[]] := if_pos (List.reverse_eq_nil_iff.mp hnames)
    rw [hempty]
    exact ⟨rfl, rfl⟩
  | cons name others =>
    have hname := (hw name (List.mem_reverse.mp (hnames ▸ List.mem_cons_self))).1
    have hfull : names = name :: others :=
      (if_neg fun h => by simp [h] at hnames).trans hnames
    rw [hfull, List.dropWhile_cons_of_neg (by simpa using hname.2.2),
      List.takeWhile_cons_of_neg (by simpa using hname.1)]
    exact ⟨rfl, rfl⟩

private theorem leadingUps_render {w : Walk} (hw : w.Plain) (rooted : Bool) :
    leadingUps (w.render rooted) = w.up := by
  have hroot (segments : List Text) :
      (rootSegments rooted ++ segments).dropWhile (·.isEmpty) =
        segments.dropWhile (·.isEmpty) := by
    cases rooted <;> rfl
  obtain ⟨htake, hdrop⟩ := takeWhile_names hw
  rw [leadingUps, split_render hw, hroot]
  cases w.up with
  | zero => rw [List.replicate_zero, List.nil_append, hdrop, List.length_nil]
  | succ n =>
    rw [List.replicate_succ, List.cons_append, List.dropWhile_cons_of_neg (by decide),
      ← List.cons_append, ← List.replicate_succ, List.takeWhile_append_of_pos, htake,
      List.append_nil, List.length_replicate]
    intro segment hsegment
    rw [List.eq_of_mem_replicate hsegment]
    rfl

/-- The normal form of a route begins with as many `..` as it leads up. -/
theorem leadingUps_normalize (route : Text) : leadingUps (normalize route) = (walk route).up :=
  leadingUps_render (plain_walk route) _

/-- Does the text of the place end with a slash? It does if there is something to write, and no name
at its end. -/
def Walk.EndsOpen (rooted : Bool) (w : Walk) : Prop := w.down = [] ∧ (rooted = true ∨ w.up ≠ 0)

instance (rooted : Bool) (w : Walk) : Decidable (w.EndsOpen rooted) :=
  inferInstanceAs (Decidable (_ ∧ _))

private theorem endsWith_render {w : Walk} (hw : w.Plain) (rooted : Bool) :
    Text.endsWith "/" (w.render rooted) = true ↔ w.EndsOpen rooted := by
  rw [Text.endsWith_iff]
  constructor
  · rintro ⟨s, hs⟩
    replace hs : w.render rooted = s ++ ['/'] := hs
    have hlast := congrArg List.getLast? (split_render hw rooted)
    rw [hs, Text.split_append] at hlast
    cases hdown : w.down with
    | nil =>
      cases rooted with
      | true => exact ⟨hdown, .inl rfl⟩
      | false =>
        refine ⟨hdown, .inr fun hup => ?_⟩
        rw [Walk.render, hup, hdown] at hs
        simp [Text.join] at hs
    | cons name outer =>
      have hname := (hw name (hdown ▸ List.mem_cons_self)).1
      simp [hdown, Text.split] at hlast
      exact absurd hlast hname.2.2
  · obtain ⟨up, down⟩ := w
    rintro ⟨rfl, hsome⟩
    cases up with
    | zero =>
      obtain rfl : rooted = true := hsome.resolve_right fun h => h rfl
      exact ⟨[], rfl⟩
    | succ n =>
      have hup (before : Text) : before ++ "../".toList = before ++ "..".toList ++ ['/'] := by
        rw [List.append_assoc]
        rfl
      rw [Walk.render, List.replicate_succ', List.flatten_append, List.flatten_singleton,
        ← List.append_assoc, hup]
      exact ⟨_, List.append_nil _⟩

/-! ### From a directory to a target -/

private theorem dropCommon_append (common s t : List Text) :
    dropCommon (common ++ s) (common ++ t) = dropCommon s t := by
  induction common with
  | nil => rfl
  | cons first common ih =>
    rw [List.cons_append, List.cons_append, dropCommon, if_pos rfl, ih]

/-- What is dropped from both lists is the same. -/
theorem exists_common (s t : List Text) :
    ∃ common, s = common ++ (dropCommon s t).1 ∧ t = common ++ (dropCommon s t).2 := by
  fun_induction dropCommon s t with
  | case1 s first t ih =>
    obtain ⟨common, hs, ht⟩ := ih
    exact ⟨first :: common, congrArg (first :: ·) hs, congrArg (first :: ·) ht⟩
  | case2 | case3 => exact ⟨[], rfl, rfl⟩

private theorem render_eq_nil {w : Walk} (hw : w.Plain) {rooted : Bool} (h : w.render rooted = []) :
    rooted = false ∧ w = {} := by
  cases rooted with
  | true => cases h
  | false =>
    obtain ⟨up, down⟩ := w
    cases up with
    | succ n => cases h
    | zero =>
      cases hnames : down.reverse with
      | nil => exact ⟨rfl, by rw [List.reverse_eq_nil_iff.mp hnames]⟩
      | cons name names =>
        have hname := (hw name (List.mem_reverse.mp (hnames ▸ List.mem_cons_self))).1
        rw [Walk.render, hnames] at h
        cases names <;> simp [Text.join, hname.2.2] at h

/-- The empty segment after a final slash. -/
def lastSegments (rooted : Bool) (w : Walk) : List Text := if w.EndsOpen rooted then [[]] else []

private theorem follow_lastSegments (w v : Walk) (rooted : Bool) :
    w.follow (lastSegments rooted v) = w := by
  rw [lastSegments]
  split
  · exact w.step_empty
  · rfl

private theorem segments_render {w : Walk} (hw : w.Plain) (rooted : Bool) :
    segments (w.render rooted) =
      rootSegments rooted ++ (w.segments ++ lastSegments rooted w) := by
  by_cases hnil : w.render rooted = []
  · obtain ⟨rfl, rfl⟩ := render_eq_nil hw hnil
    rfl
  · rw [segments, if_neg (by simpa using hnil), split_render hw, Walk.segments, lastSegments,
      List.append_assoc]
    by_cases hdown : w.down = []
    · have hopen : w.EndsOpen rooted := by
        refine ⟨hdown, ?_⟩
        cases rooted with
        | true => exact .inl rfl
        | false =>
          refine .inr fun hup => hnil ?_
          rw [Walk.render, hup, hdown]
          rfl
      rw [if_pos hdown, if_pos hopen, hdown, List.reverse_nil, List.nil_append]
    · rw [if_neg hdown, if_neg fun hopen => hdown hopen.1, List.append_nil]

/-- The segments of the route from a directory to a target. -/
def way (source target : Text) : List Text :=
  let parts := dropCommon (segments (normalize source)) (segments (normalize target))
  parts.1.map (fun _ => "..".toList) ++ parts.2

private theorem way_self {a b : Text} (h : normalize a = normalize b) : way a b = [] := by
  have hself := dropCommon_append (segments (normalize b)) [] []
  rw [List.append_nil] at hself
  rw [way, h, hself]
  rfl

private theorem relative_eq (a b : Text) : relative a b = Text.join "/" (way a b) := by
  by_cases h : normalize a = normalize b
  · rw [relative, if_pos h, way_self h]
    rfl
  · rw [relative, if_neg h]
    rfl

private theorem not_mem_of_mem_segments {segment route : Text} (h : segment ∈ segments route) :
    '/' ∉ segment := by
  rw [segments] at h
  split at h
  · cases h
  · exact Text.not_mem_of_mem_split h

/-- The route from a directory to a target is followed as the segments between them are. -/
theorem follow_relative (w : Walk) (a b : Text) :
    w.follow (Text.split '/' (relative a b)) = w.follow (way a b) := by
  rw [relative_eq]
  by_cases hnil : way a b = []
  · rw [hnil]
    exact w.step_empty
  · refine congrArg w.follow (Text.split_join hnil fun segment hsegment => ?_)
    rcases List.mem_append.mp hsegment with hback | hahead
    · obtain ⟨_, -, rfl⟩ := List.mem_map.mp hback
      decide
    · obtain ⟨common, -, htarget⟩ := exists_common (segments (normalize a)) (segments (normalize b))
      have hmem := List.mem_append_right common hahead
      rw [← htarget] at hmem
      exact not_mem_of_mem_segments hmem

private theorem follow_ups (n : Nat) :
    ({} : Walk).follow (List.replicate n "..".toList) = ⟨n, []⟩ := by
  induction n with
  | zero => rfl
  | succ n ih =>
    rw [List.replicate_succ', Walk.follow_append, ih]
    rfl

private theorem follow_names {names : List Text} (h : ∀ name ∈ names, IsName name) (w : Walk) :
    w.follow names = { w with down := names.reverse ++ w.down } := by
  induction names generalizing w with
  | nil => rfl
  | cons name names ih =>
    rw [Walk.follow_cons, Walk.step_name (h name List.mem_cons_self),
      ih fun n hn => h n (List.mem_cons_of_mem name hn), List.reverse_cons, List.append_assoc]
    rfl

private theorem Walk.Plain.isName {w : Walk} (hw : w.Plain) {name : Text}
    (h : name ∈ w.down.reverse) :
    IsName name := (hw name (List.mem_reverse.mp h)).1

/-- A place is where its segments lead. -/
theorem follow_segments {w : Walk} (hw : w.Plain) : ({} : Walk).follow w.segments = w := by
  rw [Walk.segments, Walk.follow_append, follow_ups, follow_names fun _ h => hw.isName h,
    List.reverse_reverse, List.append_nil]

/-- What is left to go to a target from the last `..` of a directory that is at most as far up. -/
def beyond (source target : Text) : List Text :=
  List.replicate ((walk target).up - (walk source).up) "..".toList ++
    ((walk target).down.reverse ++ lastSegments (isRooted target) (walk target))

private theorem way_eq {a b : Text} (hroot : isRooted a = isRooted b)
    (hups : (walk a).up ≤ (walk b).up) :
    let parts := dropCommon ((walk a).down.reverse ++ lastSegments (isRooted a) (walk a))
      (beyond a b)
    way a b = parts.1.map (fun _ => "..".toList) ++ parts.2 := by
  intro parts
  have hsplit : List.replicate (walk b).up "..".toList =
      List.replicate (walk a).up "..".toList ++
        List.replicate ((walk b).up - (walk a).up) "..".toList := by
    rw [List.replicate_append_replicate, Nat.add_sub_cancel' hups]
  have hstart := congrArg rootSegments hroot
  have hparts : dropCommon (segments (normalize a)) (segments (normalize b)) = parts := by
    rw [normalize, normalize, segments_render (plain_walk a), segments_render (plain_walk b),
      hstart, dropCommon_append, Walk.segments, Walk.segments, hsplit, List.append_assoc,
      List.append_assoc, List.append_assoc, dropCommon_append, ← beyond]
  rw [way, hparts]

private theorem follow_beyond {a b : Text} (hups : (walk a).up ≤ (walk b).up) (n : Nat) :
    (⟨(walk a).up + n, []⟩ : Walk).follow (beyond a b) =
      { walk b with up := (walk b).up + n } := by
  have hplain : Walk.Plain { walk b with up := (walk b).up + n } := plain_walk b
  have hsum : (walk a).up + n + ((walk b).up - (walk a).up) = (walk b).up + n := by omega
  rw [← follow_ups, ← Walk.follow_append, beyond, ← List.append_assoc,
    List.replicate_append_replicate, hsum, ← List.append_assoc, Walk.follow_append,
    follow_lastSegments]
  exact follow_segments hplain

/-- From a directory that does not end with a slash, the way leads to the target. -/
theorem follow_way_of_closed {a b : Text} (hroot : isRooted a = isRooted b)
    (hups : (walk a).up ≤ (walk b).up) (hclosed : ¬ (walk a).EndsOpen (isRooted a)) :
    (walk a).follow (way a b) = walk b := by
  obtain ⟨common, hdown, hahead⟩ := exists_common (walk a).down.reverse (beyond a b)
  have hway := way_eq hroot hups
  rw [lastSegments, if_neg hclosed, List.append_nil] at hway
  rw [hway]
  generalize dropCommon (walk a).down.reverse (beyond a b) = parts at hdown hahead
  -- Up to where the two ways part, then down to the target.
  have hback : ∀ name ∈ parts.1, IsName name := fun name h =>
    (plain_walk a).isName (hdown ▸ List.mem_append_right common h)
  have hsource : walk a = ((⟨(walk a).up, []⟩ : Walk).follow common).follow parts.1 := by
    rw [← Walk.follow_append, ← hdown, ← follow_ups, ← Walk.follow_append]
    exact (follow_segments (plain_walk a)).symm
  have hparting := Walk.follow_back hback ((⟨(walk a).up, []⟩ : Walk).follow common)
  rw [← hsource] at hparting
  rw [Walk.follow_append, hparting, ← Walk.follow_append, ← hahead]
  exact follow_beyond hups 0

/-- What is left to go begins with `..` or with a name, if there is anything to go. -/
theorem beyond_head_ne_nil {a b : Text} (hroot : isRooted a = isRooted b)
    (hups : (walk a).up ≤ (walk b).up) (hdown : (walk a).down = [])
    (hne : normalize a ≠ normalize b) {first : Text} {rest : List Text}
    (h : beyond a b = first :: rest) : first ≠ [] := by
  rintro rfl
  rw [beyond] at h
  cases hgap : (walk b).up - (walk a).up with
  | succ n =>
    rw [hgap, List.replicate_succ] at h
    exact absurd (List.cons.inj h).1 (by decide)
  | zero =>
    rw [hgap] at h
    cases hnames : (walk b).down.reverse with
    | cons name names =>
      rw [hnames] at h
      exact ((plain_walk b).isName (hnames ▸ List.mem_cons_self)).2.2 (List.cons.inj h).1
    | nil =>
      have hup : (walk a).up = (walk b).up := by omega
      have hsame : walk a = walk b := calc
        walk a = ⟨(walk a).up, []⟩ := congrArg (Walk.mk _) hdown
        _ = ⟨(walk b).up, []⟩ := congrArg (Walk.mk · []) hup
        _ = walk b := congrArg (Walk.mk _) (List.reverse_eq_nil_iff.mp hnames).symm
      exact hne (by rw [normalize, normalize, hroot, hsame])

/-- From any other directory it leads one level too high, unless there is no way to go. -/
theorem follow_way_of_open {a b : Text} (hroot : isRooted a = isRooted b)
    (hups : (walk a).up ≤ (walk b).up) (hopen : (walk a).EndsOpen (isRooted a))
    (hne : normalize a ≠ normalize b) :
    (walk a).follow (way a b) = { walk b with up := (walk b).up + 1 } := by
  -- The empty last segment of the directory is not dropped, and counts as a level.
  have hparts : dropCommon [[]] (beyond a b) = ([[]], beyond a b) := by
    cases hbeyond : beyond a b with
    | nil => rfl
    | cons first rest =>
      have hfirst := beyond_head_ne_nil hroot hups hopen.1 hne hbeyond
      rw [dropCommon, if_neg hfirst.symm]
  have hway := way_eq hroot hups
  rw [lastSegments, if_pos hopen, hopen.1, List.reverse_nil, List.nil_append, hparts] at hway
  have hup : (walk a).step ".." = ⟨(walk a).up + 1, []⟩ := Walk.step_up_nil hopen.1
  calc (walk a).follow (way a b)
      = ((walk a).step "..").follow (beyond a b) := by rw [hway]; rfl
    _ = (⟨(walk a).up + 1, []⟩ : Walk).follow (beyond a b) := by rw [hup]
    _ = { walk b with up := (walk b).up + 1 } := follow_beyond hups 1

/-! ### A route seen from a directory -/

/-- A route that is written from a directory. The empty directory adds nothing to it. -/
def onto (directory route : Text) : Text :=
  if directory.isEmpty then route else directory ++ "/" ++ route

/-- A route that is set onto a directory leads on from where the directory is. -/
theorem follow_onto (w : Walk) (directory route : Text) :
    w.follow (Text.split '/' (onto directory route)) =
      (w.follow (Text.split '/' directory)).follow (Text.split '/' route) := by
  rw [onto]
  split
  · next hnil =>
    rw [List.isEmpty_iff.mp hnil]
    exact congrArg (Walk.follow · _) w.step_empty.symm
  · rw [List.append_assoc, ← Walk.follow_append]
    exact congrArg w.follow (Text.split_append directory route)

private theorem walk_onto (directory route : Text) :
    walk (onto directory route) = (walk directory).follow (Text.split '/' route) :=
  follow_onto {} directory route

private theorem relative_nil (b : Text) : relative [] b = normalize b := by
  have hway : way [] b = segments (normalize b) := by
    rw [way]
    cases segments (normalize b) <;> rfl
  rw [relative_eq, hway, segments]
  split
  · next h =>
    rw [List.isEmpty_iff.mp h]
    rfl
  · exact Text.join_split _

private theorem isRooted_onto_relative {a b : Text} (hroot : isRooted a = isRooted b) :
    isRooted (onto a (relative a b)) = isRooted b := by
  rw [← hroot, onto]
  cases a with
  | nil =>
    rw [if_pos List.isEmpty_nil, relative_nil, normalize, isRooted_render (plain_walk b), hroot]
  | cons c rest => rfl

private theorem normalize_onto_relative {a b : Text} (hroot : isRooted a = isRooted b) :
    normalize (onto a (relative a b)) = ((walk a).follow (way a b)).render (isRooted b) := by
  rw [normalize, walk_onto, follow_relative, isRooted_onto_relative hroot]

/-- The route from a directory to a target that is at least as far up, followed from the directory,
leads to the target if and only if the two are the same or the directory's normal form does not end
with a slash. -/
theorem relative_leads_to_target_iff (a b : Text) (hroot : isRooted a = isRooted b)
    (hups : leadingUps (normalize a) ≤ leadingUps (normalize b)) :
    normalize (onto a (relative a b)) = normalize b ↔
      normalize a = normalize b ∨ Text.endsWith "/" (normalize a) = false := by
  rw [leadingUps_normalize, leadingUps_normalize] at hups
  have hends : Text.endsWith "/" (normalize a) = false ↔ ¬ (walk a).EndsOpen (isRooted a) := by
    rw [← Bool.not_eq_true, normalize, endsWith_render (plain_walk a)]
  rw [normalize_onto_relative hroot, hends]
  by_cases hsame : normalize a = normalize b
  · have hplace : walk a = walk b := by rw [← walk_normalize a, hsame, walk_normalize]
    rw [way_self hsame, Walk.follow_nil, hplace]
    exact ⟨fun _ => .inl hsame, fun _ => rfl⟩
  by_cases hopen : (walk a).EndsOpen (isRooted a)
  · rw [follow_way_of_open hroot hups hopen hsame]
    refine ⟨fun hleads => ?_, fun h => absurd hopen (h.resolve_left hsame)⟩
    -- The number of leading `..` tells the two apart.
    have hhigher : Walk.Plain { walk b with up := (walk b).up + 1 } := plain_walk b
    have hcount := congrArg leadingUps hleads
    rw [leadingUps_render hhigher, leadingUps_normalize] at hcount
    exact absurd hcount (Nat.succ_ne_self _)
  · rw [follow_way_of_closed hroot hups hopen]
    exact ⟨fun _ => .inr hopen, fun _ => rfl⟩

/-- Out of a directory and above where one started. -/
theorem relative_leads_to_target_iff_at_above :
    isRooted "pages/./blog" = isRooted "../site/x" ∧
      leadingUps (normalize "pages/./blog") ≤ leadingUps (normalize "../site/x") ∧
      relative "pages/./blog" "../site/x" = "../../../site/x" ∧
      normalize (onto "pages/./blog" (relative "pages/./blog" "../site/x")) =
        normalize "../site/x" :=
  ⟨rfl, by decide, by decide,
    (relative_leads_to_target_iff "pages/./blog" "../site/x" rfl (by decide)).mpr
      (.inr (by decide))⟩

/-- From the directory above to a file in it, the route leads one level too high. -/
theorem relative_misses_target_at_parent :
    isRooted ".." = isRooted "../x" ∧
      leadingUps (normalize "..") ≤ leadingUps (normalize "../x") ∧
      relative ".." "../x" = "../x" ∧
      normalize (onto ".." (relative ".." "../x")) = "../../x" ∧ normalize "../x" = "../x" := by
  decide

end OutlinePage.Route
