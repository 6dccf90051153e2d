import OutlinePage.Proofs.Routes

/-!
# Canonical routes

A directory is the list of its names from the root on. A route leads from one directory to another,
segment by segment, and nothing leads above the root. The normal form of a route leads to the same
directory as the route, and it is canonical: routes that do not begin at the root have the same
normal form exactly if they lead to the same directory from everywhere.
-/

namespace OutlinePage.Route

/-- The names can stand one after the other in a route. -/
def IsDirectory (directory : List Text) : Prop := ∀ name ∈ directory, IsName name ∧ '/' ∉ name

/-- One segment further. A `..` drops the last name and stays at the root if there is none; `.` and
the empty segment stay. -/
def enter (directory : List Text) (segment : Text) : List Text :=
  if segment = ".." then directory.dropLast
  else if segment = "." ∨ segment = [] then directory
  else directory ++ [segment]

/-- The directory that a route leads to from the given one, or from the root if it begins there. -/
def arrive (directory : List Text) (route : Text) : List Text :=
  (Text.split '/' route).foldl enter (if isRooted route then [] else directory)

/-- The directory that a walk leads to: first up, no further than to the root, and then down. -/
def Walk.reach (w : Walk) (directory : List Text) : List Text :=
  directory.take (directory.length - w.up) ++ w.down.reverse

/-! ### Walks from a directory -/

private theorem dropLast_take_sub {α : Type} (l : List α) (n : Nat) :
    (l.take (l.length - n)).dropLast = l.take (l.length - (n + 1)) := by
  rw [List.dropLast_eq_take, List.length_take, List.take_take]
  congr 1
  omega

/-- A walk that goes one segment further leads one segment further. -/
theorem reach_step (w : Walk) (segment : Text) (directory : List Text) :
    (w.step segment).reach directory = enter (w.reach directory) segment := by
  by_cases hup : segment = ".."
  · subst hup
    rw [enter, if_pos rfl]
    cases hdown : w.down with
    | nil =>
      rw [Walk.step_up_nil hdown, Walk.reach, Walk.reach, hdown, List.reverse_nil, List.append_nil,
        List.append_nil, dropLast_take_sub]
    | cons name outer =>
      rw [Walk.step_up_cons hdown, Walk.reach, Walk.reach, hdown, List.reverse_cons,
        ← List.append_assoc, List.dropLast_concat]
  · by_cases hstay : segment = "." ∨ segment = []
    · rw [Walk.step, if_neg hup, if_pos hstay, enter, if_neg hup, if_pos hstay]
    · have hname : IsName segment := ⟨hup, not_or.mp hstay⟩
      rw [Walk.step_name hname, enter, if_neg hup, if_neg hstay, Walk.reach, Walk.reach,
        List.reverse_cons, List.append_assoc]

private theorem reach_follow (w : Walk) (segments : List Text) (directory : List Text) :
    (w.follow segments).reach directory = segments.foldl enter (w.reach directory) := by
  induction segments generalizing w with
  | nil => rfl
  | cons segment segments ih => rw [Walk.follow_cons, ih, reach_step, List.foldl_cons]

/-- A route leads where its walk leads. -/
theorem arrive_eq (directory : List Text) (route : Text) :
    arrive directory route = (walk route).reach (if isRooted route then [] else directory) := by
  have hfollow (start : List Text) :
      (walk route).reach start = (Text.split '/' route).foldl enter start := by
    have hstart : ({} : Walk).reach start = start := by simp [Walk.reach]
    calc (walk route).reach start
        = (Text.split '/' route).foldl enter (({} : Walk).reach start) := reach_follow {} _ start
      _ = (Text.split '/' route).foldl enter start := by rw [hstart]
  rw [arrive, hfollow]

/-- Two walks that lead to the same directory from everywhere are the same: the names that they go
down show from the root, and how far they go up shows from deep enough. -/
theorem walk_eq_of_reach {w v : Walk}
    (h : ∀ directory, IsDirectory directory → w.reach directory = v.reach directory) : w = v := by
  have hdown : w.down = v.down := by
    have hroot := h [] fun _ hname => absurd hname List.not_mem_nil
    simpa [Walk.reach] using hroot
  have hup : w.up = v.up := by
    have hdeep : IsDirectory (List.replicate (w.up + v.up) "a".toList) := by
      intro name hname
      rw [List.eq_of_mem_replicate hname]
      exact ⟨⟨by decide, by decide, by decide⟩, by decide⟩
    have hlength := congrArg List.length (h _ hdeep)
    simp only [Walk.reach, List.length_append, List.length_take, List.length_replicate,
      List.length_reverse, hdown] at hlength
    omega
  calc w = ⟨w.up, w.down⟩ := rfl
    _ = ⟨v.up, v.down⟩ := by rw [hup, hdown]

/-! ### Normal forms -/

private theorem isRooted_normalize (route : Text) : isRooted (normalize route) = isRooted route :=
  isRooted_render (plain_walk route) (isRooted route)

/-- The normal form of a route leads to the same directory as the route. -/
theorem arrive_normalize (directory : List Text) (route : Text) :
    arrive directory (normalize route) = arrive directory route := by
  rw [arrive_eq, walk_normalize, isRooted_normalize, arrive_eq]

/-- From everywhere, the normal form of a route leads where the route leads, and it is its own
normal form. Routes that do not begin at the root have the same normal form if and only if they lead
to the same directory from every directory. -/
theorem normal_form_canonical :
    (∀ route directory, arrive directory (normalize route) = arrive directory route) ∧
      (∀ route, normalize (normalize route) = normalize route) ∧
      ∀ a b, isRooted a = false → isRooted b = false →
        (normalize a = normalize b ↔
          ∀ directory, IsDirectory directory → arrive directory a = arrive directory b) := by
  refine ⟨fun route directory => arrive_normalize directory route, normalize_normalize, ?_⟩
  intro a b ha hb
  constructor
  · intro hsame directory _
    rw [← arrive_normalize directory a, hsame, arrive_normalize]
  · intro hleads
    have hwalk : walk a = walk b := by
      apply walk_eq_of_reach
      intro directory hdirectory
      have harrive := hleads directory hdirectory
      rwa [arrive_eq, arrive_eq, ha, hb] at harrive
    rw [normalize, normalize, hwalk, ha, hb]

/-- Above where one started and down again, spelled in two ways. -/
theorem normal_form_canonical_at_above :
    isRooted "x/../../y/." = false ∧ isRooted "..//y" = false ∧
      normalize "x/../../y/." = "../y" ∧
      ∀ directory, IsDirectory directory →
        arrive directory "x/../../y/." = arrive directory "..//y" :=
  ⟨rfl, rfl, by decide, (normal_form_canonical.2.2 _ _ rfl rfl).mp (by decide)⟩

end OutlinePage.Route
