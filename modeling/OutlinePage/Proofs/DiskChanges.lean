import Mathlib.Data.List.Induction
import OutlinePage.File.Disk

/-!
# What becomes of a disk

Files are written and directories are made, and nothing is ever taken away. A directory is made only
where there is nothing, so a file that is there stays one; and where a file stands in the way of a
directory, it does so for good. A path with a NUL in it leads nowhere on any disk.
-/

namespace OutlinePage.File

/-- A child of a path leads one name further than the path. -/
theorem Path.resolve_child (here : Place) (p : Path) (name : Text) :
    (p.child name).resolve here = Path.step (p.resolve here) name :=
  List.foldl_append

private theorem Path.parent_append (root : Text) (parts : List Text) (part : Text) :
    Path.parent ⟨root, parts ++ [part]⟩ = ⟨root, parts⟩ := by
  rw [Path.parent, List.dropLast_concat]

private theorem Path.hasNul_append {root : Text} {first second : List Text} :
    Path.hasNul ⟨root, first ++ second⟩ =
      (Path.hasNul ⟨root, first⟩ || Path.hasNul ⟨root, second⟩) :=
  List.any_append

/-- A path that goes on from another one has a NUL if that one has. -/
theorem Path.hasNul_of_prefix {root : Text} {p : Path} {parts : List Text} (h : parts <+: p.parts)
    (hnul : Path.hasNul ⟨root, parts⟩ = true) : p.hasNul = true := by
  obtain ⟨more, hmore⟩ := h
  rw [Path.hasNul, ← hmore, List.any_append, Bool.or_eq_true]
  exact .inl hnul

/-- A path has a NUL if its parent has one. -/
theorem Path.hasNul_of_parent {p : Path} (h : p.parent.hasNul = true) : p.hasNul = true :=
  Path.hasNul_of_prefix (List.dropLast_prefix p.parts) h

namespace Disk

/-! ### Following paths -/

section

variable {d : Disk}

private theorem follow_append (place : Place) (first second : List Text) :
    d.follow place (first ++ second) = (d.follow place first).bind (d.follow · second) := by
  induction first generalizing place with
  | nil => rfl
  | cons part first ih =>
    rw [List.cons_append, follow, follow]
    split
    · exact ih _
    · rfl

/-- A path that leads nowhere does so because of a place above where no directory is. -/
theorem follow_eq_error {place : Place} {parts : List Text} {r : Refusal}
    (h : d.follow place parts = .error r) : ∃ above, r = d.blocked above := by
  induction parts generalizing place with
  | nil => cases h
  | cons part parts ih =>
    rw [follow] at h
    split at h
    · exact ih h
    · cases h
      exact ⟨place, rfl⟩

/-- A path that is one is followed part by part. -/
theorem locate_of_noNul {p : Path} (h : p.hasNul = false) :
    d.locate p = d.follow (if p.isRooted then [] else d.here) p.parts := by
  rw [locate, h, if_neg Bool.false_ne_true]

private theorem locate_of_nul {p : Path} (h : p.hasNul = true) :
    d.locate p = .error .nul :=
  if_pos h

/-- A path is refused for a NUL exactly if it has one. -/
theorem locate_eq_nul_iff {p : Path} : d.locate p = .error .nul ↔ p.hasNul = true := by
  refine ⟨fun h => ?_, locate_of_nul⟩
  by_contra hnul
  rw [locate_of_noNul (Bool.eq_false_iff.mpr hnul)] at h
  obtain ⟨above, hblocked⟩ := follow_eq_error h
  rw [blocked] at hblocked
  split at hblocked <;> cases hblocked

private theorem noNul_of_locate {p : Path} {place : Place} (h : d.locate p = .ok place) :
    p.hasNul = false := by
  refine Bool.eq_false_iff.mpr fun hnul => ?_
  rw [locate_of_nul hnul] at h
  cases h

/-- A path that goes further down from another one is followed from where that one leads. -/
theorem locate_append {root : Text} {first second : List Text}
    (h : Path.hasNul ⟨root, first ++ second⟩ = false) :
    d.locate ⟨root, first ++ second⟩ = (d.locate ⟨root, first⟩).bind (d.follow · second) := by
  rw [locate_of_noNul h]
  rw [Path.hasNul_append, Bool.or_eq_false_iff] at h
  rw [locate_of_noNul h.1]
  exact follow_append _ first second

/-- One part further down from a path. -/
theorem follow_singleton (place : Place) (part : Text) : d.follow place [part] =
    if d.hasDirectory place then .ok (Path.step place part) else .error (d.blocked place) := rfl

private theorem follow_eq_ok {place place' : Place} {parts : List Text}
    (h : d.follow place parts = .ok place') : place' = parts.foldl Path.step place := by
  induction parts generalizing place with
  | nil =>
    cases h
    rfl
  | cons part parts ih =>
    rw [follow] at h
    split at h
    · exact ih h
    · cases h

/-- A path leads to the place that its text says, if it leads anywhere. -/
theorem locate_eq_ok {p : Path} {place : Place} (h : d.locate p = .ok place) :
    place = p.resolve d.here := by
  rw [locate_of_noNul (noNul_of_locate h)] at h
  exact follow_eq_ok h

private theorem locate_root (root : Text) :
    d.locate ⟨root, []⟩ = .ok (Path.resolve d.here ⟨root, []⟩) :=
  rfl

private theorem isDirectory_iff {p : Path} :
    d.isDirectory p = true ↔ ∃ place, d.locate p = .ok place ∧ d.hasDirectory place = true := by
  rw [isDirectory]
  cases d.locate p with
  | ok place => simp
  | error r => simp

/-- What leads to something has only directories above it. -/
theorem isDirectory_above {root : Text} {parts more : List Text} {part : Text}
    (h : ∃ place, d.locate ⟨root, parts ++ part :: more⟩ = .ok place) :
    d.isDirectory ⟨root, parts⟩ = true := by
  obtain ⟨place, h⟩ := h
  have hfollow : (d.locate ⟨root, parts⟩).bind (d.follow · (part :: more)) = .ok place := by
    rw [← h]
    exact (locate_append (noNul_of_locate h)).symm
  rw [isDirectory]
  cases hparts : d.locate ⟨root, parts⟩ with
  | error r =>
    rw [hparts] at hfollow
    cases hfollow
  | ok above =>
    rw [hparts, Except.bind, follow] at hfollow
    split at hfollow
    · next habove => exact habove
    · cases hfollow

end

/-! ### Disks that look alike from outside -/

/-- The disks have the same directories, and files at the same places. -/
structure Alike (d d' : Disk) : Prop where
  here : d'.here = d.here
  hasDirectory : ∀ place, d'.hasDirectory place = d.hasDirectory place
  contains : ∀ place, d'.files.contains place = d.files.contains place

/-- Paths lead to the same places on both disks. -/
theorem Alike.locate {d d' : Disk} (h : Alike d d') (p : Path) : d'.locate p = d.locate p := by
  have hfollow (place : Place) (parts : List Text) :
      d'.follow place parts = d.follow place parts := by
    induction parts generalizing place with
    | nil => rfl
    | cons part parts ih =>
      rw [follow, follow, h.hasDirectory, blocked, blocked, h.contains, ih]
  rw [Disk.locate, Disk.locate, h.here, hfollow]

/-- A disk that has all directories of another one leads wherever that one does. -/
theorem locate_of_keeps {d d' : Disk} (hhere : d'.here = d.here)
    (hkeeps : ∀ place, d.hasDirectory place = true → d'.hasDirectory place = true) {p : Path}
    {place : Place} (h : d.locate p = .ok place) : d'.locate p = .ok place := by
  have hfollow (start : Place) (parts : List Text) (h : d.follow start parts = .ok place) :
      d'.follow start parts = .ok place := by
    induction parts generalizing start with
    | nil => exact h
    | cons part parts ih =>
      rw [follow] at h
      split at h
      · next hstart =>
        rw [follow, if_pos (hkeeps start hstart)]
        exact ih _ h
      · cases h
  have hnul := noNul_of_locate h
  rw [locate_of_noNul hnul] at h
  rw [locate_of_noNul hnul, hhere]
  exact hfollow _ _ h

/-! ### Changes -/

/-- The disk `d'` is what becomes of `d` when these files are written, in this order, and some
directories are made. -/
structure Becomes (d : Disk) (written : List (Place × Bytes)) (d' : Disk) : Prop where
  here : d'.here = d.here
  files : d'.files = d.files.union ⟨written⟩
  /-- Directories stay. -/
  keeps : ∀ place, d.hasDirectory place = true → d'.hasDirectory place = true
  /-- A directory is made only where there is no file. -/
  made : ∀ place, d'.hasDirectory place = true →
    d.hasDirectory place = true ∨ d.files.contains place = false
  /-- What was written is no directory. -/
  free : ∀ entry ∈ written, d'.hasDirectory entry.1 = false

/-- A disk becomes itself when nothing is written. -/
theorem Becomes.refl (d : Disk) : Becomes d [] d where
  here := rfl
  files := rfl
  keeps := fun _ h => h
  made := fun _ h => .inl h
  free := fun _ h => absurd h List.not_mem_nil

section

variable {d d' d'' : Disk} {written written' : List (Place × Bytes)}

/-- A file that is no directory does not become one. -/
theorem Becomes.hasDirectory_of_file (h : Becomes d written d') {place : Place}
    (hfile : d.files.contains place = true) (hplace : d.hasDirectory place = false) :
    d'.hasDirectory place = false := by
  cases hplace' : d'.hasDirectory place with
  | false => rfl
  | true =>
    rcases h.made place hplace' with hd | hd
    · rw [hplace] at hd
      cases hd
    · rw [hfile] at hd
      cases hd

private theorem Becomes.contains (h : Becomes d written d') {place : Place}
    (hfile : d.files.contains place = true) : d'.files.contains place = true := by
  rw [h.files]
  exact Table.contains_union hfile written

/-- Where something was written there is a file. -/
theorem Becomes.contains_of_mem (h : Becomes d written d') {entry : Place × Bytes}
    (hentry : entry ∈ written) : d'.files.contains entry.1 = true := by
  rw [h.files]
  exact Table.contains_union_of_mem (List.mem_map_of_mem hentry) d.files

/-- What is written in two goes is written in one after the other. -/
theorem Becomes.trans (h : Becomes d written d') (h' : Becomes d' written' d'') :
    Becomes d (written ++ written') d'' where
  here := h'.here.trans h.here
  files := by rw [h'.files, h.files, Table.union_append]
  keeps := fun place hplace => h'.keeps place (h.keeps place hplace)
  made := by
    intro place hplace
    rcases h'.made place hplace with hd' | hd'
    · exact h.made place hd'
    · right
      cases hd : d.files.contains place with
      | false => rfl
      | true =>
        rw [h.contains hd] at hd'
        cases hd'
  free := by
    intro entry hentry
    rcases List.mem_append.mp hentry with hfirst | hsecond
    · exact h'.hasDirectory_of_file (h.contains_of_mem hfirst) (h.free entry hfirst)
    · exact h'.free entry hsecond

/-- A path that led somewhere still leads there. -/
theorem Becomes.locate (h : Becomes d written d') {p : Path} {place : Place}
    (hp : d.locate p = .ok place) : d'.locate p = .ok place :=
  locate_of_keeps h.here h.keeps hp

/-- A directory stays one. -/
theorem Becomes.isDirectory (h : Becomes d written d') {p : Path}
    (hp : d.isDirectory p = true) : d'.isDirectory p = true := by
  obtain ⟨place, hlocate, hplace⟩ := isDirectory_iff.mp hp
  exact isDirectory_iff.mpr ⟨place, h.locate hlocate, h.keeps place hplace⟩

end

/-! ### Making directories -/

section

variable {d d' : Disk} {p : Path}

private theorem makeDirectory_becomes (h : d.makeDirectory p = .ok d') :
    Becomes d [] d' ∧ d'.isDirectory p = true := by
  rw [makeDirectory] at h
  cases hlocate : d.locate p with
  | error r =>
    rw [hlocate] at h
    cases h
  | ok place =>
    rw [hlocate] at h
    dsimp only at h
    split at h
    · cases h
    · next hnone =>
      rw [Bool.or_eq_true, not_or, Bool.not_eq_true, Bool.not_eq_true] at hnone
      cases h
      have hhas (q : Place) :
          hasDirectory { d with directories := d.directories ++ [place] } q =
            (d.hasDirectory q || q == place) := by
        simp only [hasDirectory, List.contains_eq_mem, List.mem_append, List.mem_singleton,
          Bool.decide_or, Bool.or_assoc, Bool.beq_eq_decide_eq]
      have hbecomes : Becomes d [] { d with directories := d.directories ++ [place] } := by
        refine ⟨rfl, rfl, ?_, ?_, fun _ h => absurd h List.not_mem_nil⟩
        · intro q hq
          rw [hhas, hq, Bool.true_or]
        · intro q hq
          rw [hhas, Bool.or_eq_true, beq_iff_eq] at hq
          rcases hq with hq | rfl
          · exact .inl hq
          · exact .inr hnone.2
      refine ⟨hbecomes, isDirectory_iff.mpr ⟨place, hbecomes.locate hlocate, ?_⟩⟩
      rw [hhas, beq_self_eq_true, Bool.or_true]

/-- The path has a NUL in it, or on its way or at its end there is a file and no directory. -/
inductive Obstructed (d : Disk) (p : Path) : Prop where
  | nul (h : p.hasNul = true)
  | file {parts : List Text} {place : Place} (hparts : parts <+: p.parts)
      (hlocate : d.locate ⟨p.root, parts⟩ = .ok place) (hfile : d.files.contains place = true)
      (hnone : d.hasDirectory place = false)

private theorem Obstructed.of_parent (h : d.Obstructed p.parent) : d.Obstructed p := by
  cases h with
  | nul h => exact .nul (Path.hasNul_of_parent h)
  | file hparts hlocate hfile hnone =>
    exact .file (hparts.trans (List.dropLast_prefix p.parts)) hlocate hfile hnone

private theorem locate_eq_error {r : Refusal} (h : d.locate p = .error r) :
    r = .nul ∧ p.hasNul = true ∨ p.hasNul = false ∧ (r = .missing ∨ r = .notDirectory) := by
  cases hnul : p.hasNul with
  | true =>
    rw [locate_of_nul hnul] at h
    cases h
    exact .inl ⟨rfl, rfl⟩
  | false =>
    rw [locate_of_noNul hnul] at h
    obtain ⟨above, rfl⟩ := follow_eq_error h
    refine .inr ⟨rfl, ?_⟩
    rw [blocked]
    split
    · exact .inr rfl
    · exact .inl rfl

/-- If following a path ends at a file, the file is in the way. -/
theorem obstructed_of_locate (h : d.locate p = .error .notDirectory) : d.Obstructed p := by
  obtain ⟨root, parts⟩ := p
  induction parts using List.reverseRecOn with
  | nil => cases h
  | append_singleton parts part ih =>
    obtain ⟨hnul, -⟩ := (locate_eq_error h).resolve_left nofun
    rw [locate_append hnul] at h
    cases hparts : d.locate ⟨root, parts⟩ with
    | error r =>
      rw [hparts] at h
      cases h
      refine Obstructed.of_parent ?_
      rw [Path.parent_append]
      exact ih hparts
    | ok place =>
      rw [hparts, Except.bind, follow_singleton] at h
      split at h
      · cases h
      · next hplace =>
        rw [blocked] at h
        split at h
        · next hfile =>
          exact .file (List.prefix_append parts [part]) hparts hfile (Bool.eq_false_iff.mpr hplace)
        · cases h

private theorem makeDirectory_error {r : Refusal} (h : d.makeDirectory p = .error r) :
    d.locate p = .error r ∨ r = .present ∧ ∃ place, d.locate p = .ok place ∧
      (d.hasDirectory place = true ∨ d.files.contains place = true) := by
  rw [makeDirectory] at h
  cases hlocate : d.locate p with
  | error r' =>
    rw [hlocate] at h
    cases h
    exact .inl rfl
  | ok place =>
    rw [hlocate] at h
    dsimp only at h
    split at h
    · next hsome =>
      cases h
      exact .inr ⟨rfl, place, rfl, Bool.or_eq_true_iff.mp hsome⟩
    · cases h

private theorem makeDirectory_of_isDirectory (h : d.isDirectory p = true) :
    d.makeDirectory p = .error .present := by
  obtain ⟨place, hlocate, hplace⟩ := isDirectory_iff.mp h
  rw [makeDirectory, hlocate]
  dsimp only
  rw [hplace, Bool.true_or, if_pos rfl]

private theorem ensureDirectory_ok (h : d.ensureDirectory p = .ok () d') :
    Becomes d [] d' ∧ d'.isDirectory p = true := by
  rw [ensureDirectory] at h
  split at h
  · next hmake =>
    cases h
    exact makeDirectory_becomes hmake
  · cases h
  · split at h
    · next hdirectory =>
      cases h
      exact ⟨.refl d, hdirectory⟩
    · cases h

/-- A directory that cannot be made where the way leads has something in its way. -/
theorem ensureDirectory_error {f : Fault} (h : d.ensureDirectory p = .error f d')
    (hway : d.locate p ≠ .error .missing) : d' = d ∧ d.Obstructed p := by
  rw [ensureDirectory] at h
  split at h
  · cases h
  · next hmake =>
    rcases makeDirectory_error hmake with hlocate | ⟨hpresent, -⟩
    · exact absurd hlocate hway
    · cases hpresent
  · next r hmissing hmake =>
    split at h
    · cases h
    · next hdirectory =>
      cases h
      refine ⟨rfl, ?_⟩
      rcases makeDirectory_error hmake with hlocate | ⟨-, place, hlocate, hplace⟩
      · rcases locate_eq_error hlocate with ⟨-, hnul⟩ | ⟨-, rfl | rfl⟩
        · exact .nul hnul
        · exact absurd hlocate hway
        · exact obstructed_of_locate hlocate
      · have hnone : d.hasDirectory place = false := by
          rw [isDirectory_iff] at hdirectory
          exact Bool.eq_false_iff.mpr fun hhas => hdirectory ⟨place, hlocate, hhas⟩
        rw [hnone] at hplace
        exact .file List.prefix_rfl hlocate (hplace.resolve_left Bool.false_ne_true) hnone

private theorem makeDirectoriesUpTo_ok {fuel : Nat} (h : d.makeDirectoriesUpTo fuel p = .ok () d') :
    Becomes d [] d' ∧ d'.isDirectory p = true := by
  induction fuel generalizing p d' with
  | zero => exact ensureDirectory_ok h
  | succ fuel ih =>
    rw [makeDirectoriesUpTo] at h
    split at h
    · split at h
      · next d₁ hparent =>
        obtain ⟨hbecomes, hp⟩ := ensureDirectory_ok h
        exact ⟨(ih hparent).1.trans hbecomes, hp⟩
      · cases h
    · exact ensureDirectory_ok h

/-- If directories cannot be made, what was made stays, and there is something in the way. -/
theorem makeDirectories_error {f : Fault} (h : d.makeDirectories p = .error f d') :
    Becomes d [] d' ∧ d'.Obstructed p := by
  obtain ⟨root, parts⟩ := p
  rw [makeDirectories] at h
  induction parts using List.reverseRecOn generalizing f d' with
  | nil =>
    obtain ⟨rfl, hobstructed⟩ := ensureDirectory_error h (by rw [locate_root]; simp)
    exact ⟨.refl d', hobstructed⟩
  | append_singleton parts part ih =>
    rw [List.length_append, List.length_singleton, makeDirectoriesUpTo, Path.parent_append] at h
    split at h
    · split at h
      · next d₁ hparent =>
        -- All directories above are there now, so the last attempt can only meet a file.
        obtain ⟨hbecomes, hdirectory⟩ := makeDirectoriesUpTo_ok hparent
        obtain ⟨place, hlocate, hplace⟩ := isDirectory_iff.mp hdirectory
        have hway : d₁.locate ⟨root, parts ++ [part]⟩ ≠ .error .missing := by
          cases hnul : Path.hasNul ⟨root, parts ++ [part]⟩ with
          | true => simp [locate_of_nul hnul]
          | false => simp [locate_append hnul, hlocate, Except.bind, follow_singleton, hplace]
        obtain ⟨rfl, hobstructed⟩ := ensureDirectory_error h hway
        exact ⟨hbecomes, hobstructed⟩
      · next f₁ d₁ hparent =>
        cases h
        obtain ⟨hbecomes, hobstructed⟩ := ih hparent
        refine ⟨hbecomes, Obstructed.of_parent ?_⟩
        rw [Path.parent_append]
        exact hobstructed
    · next hmake =>
      obtain ⟨rfl, hobstructed⟩ := ensureDirectory_error h
        fun hmissing => hmake (by rw [makeDirectory, hmissing])
      exact ⟨.refl d', hobstructed⟩

/-- When directories were made, no file was written, and the path leads to a directory. -/
theorem makeDirectories_ok (h : d.makeDirectories p = .ok () d') :
    Becomes d [] d' ∧ d'.isDirectory p = true :=
  makeDirectoriesUpTo_ok h

/-- A directory that is there needs not be made. -/
theorem makeDirectories_of_isDirectory (h : d.isDirectory p = true) :
    d.makeDirectories p = .ok () d := by
  have hmake := makeDirectory_of_isDirectory h
  have hensure : d.ensureDirectory p = .ok () d := by
    rw [ensureDirectory, hmake]
    dsimp only
    rw [if_pos h]
  rw [makeDirectories]
  cases p.parts.length with
  | zero => exact hensure
  | succ fuel =>
    rw [makeDirectoriesUpTo, hmake]
    exact hensure

private theorem ensureDirectory_nul {f : Fault} (h : d.ensureDirectory p = .error f d')
    (hnul : f.refusal = .nul) : p.hasNul = true := by
  rw [← locate_eq_nul_iff (d := d)]
  rw [ensureDirectory] at h
  split at h
  · cases h
  · cases h
    cases hnul
  · next r _ hmake =>
    split at h
    · cases h
    · cases h
      obtain rfl : r = .nul := hnul
      rcases makeDirectory_error hmake with hlocate | ⟨hpresent, -⟩
      · exact hlocate
      · cases hpresent

/-- Directories are refused for a NUL only if the path has one. -/
theorem makeDirectories_nul {f : Fault} (h : d.makeDirectories p = .error f d')
    (hnul : f.refusal = .nul) : p.hasNul = true := by
  have hupTo (fuel : Nat) : ∀ {p f d'}, d.makeDirectoriesUpTo fuel p = .error f d' →
      f.refusal = .nul → p.hasNul = true := by
    induction fuel with
    | zero => exact fun h hnul => ensureDirectory_nul h hnul
    | succ fuel ih =>
      intro p f d' h hnul
      rw [makeDirectoriesUpTo] at h
      split at h
      · split at h
        · exact ensureDirectory_nul h hnul
        · next hparent =>
          cases h
          exact Path.hasNul_of_parent (ih hparent hnul)
      · exact ensureDirectory_nul h hnul
  exact hupTo p.parts.length h hnul

/-- What leads past something that is in the way never becomes a directory. -/
theorem Obstructed.not_isDirectory (h : d.Obstructed p) {written : List (Place × Bytes)}
    (hbecomes : Becomes d written d') : d'.isDirectory p = false := by
  cases hp : d'.isDirectory p with
  | false => rfl
  | true =>
    obtain ⟨place', hplace', -⟩ := isDirectory_iff.mp hp
    cases h with
    | nul hnul =>
      rw [noNul_of_locate hplace'] at hnul
      cases hnul
    | @file parts place hparts hlocate hfile hnone =>
      obtain ⟨more, hmore⟩ := hparts
      have habove : d'.isDirectory ⟨p.root, parts⟩ = true := by
        cases more with
        | nil =>
          rw [List.append_nil] at hmore
          rw [hmore]
          exact hp
        | cons part more =>
          have hway : ∃ place, d'.locate ⟨p.root, parts ++ part :: more⟩ = .ok place := by
            rw [hmore]
            exact ⟨place', hplace'⟩
          exact isDirectory_above hway
      obtain ⟨place', hlocate', hplace'⟩ := isDirectory_iff.mp habove
      cases (hbecomes.locate hlocate).symm.trans hlocate'
      rw [hbecomes.hasDirectory_of_file hfile hnone] at hplace'
      cases hplace'

/-- A directory cannot be made if something is in the way. -/
theorem Obstructed.makeDirectories (h : d.Obstructed p) :
    ∃ f d', d.makeDirectories p = .error f d' := by
  cases hmake : d.makeDirectories p with
  | error f d' => exact ⟨f, d', rfl⟩
  | ok _ d' =>
    obtain ⟨hbecomes, hdirectory⟩ := makeDirectories_ok hmake
    rw [h.not_isDirectory hbecomes] at hdirectory
    cases hdirectory

/-- A disk looks like itself. -/
theorem Alike.refl (d : Disk) : Alike d d := ⟨rfl, fun _ => rfl, fun _ => rfl⟩

/-- A directory is one on every disk that looks alike. -/
theorem Alike.isDirectory (h : Alike d d') (hp : d.isDirectory p = true) :
    d'.isDirectory p = true := by
  obtain ⟨place, hlocate, hplace⟩ := isDirectory_iff.mp hp
  exact isDirectory_iff.mpr ⟨place, (h.locate p).trans hlocate, (h.hasDirectory place).trans hplace⟩

/-- What is in the way is so on every disk that looks alike. -/
theorem Alike.obstructed (h : Alike d d') (hp : d.Obstructed p) : d'.Obstructed p := by
  cases hp with
  | nul hnul => exact .nul hnul
  | @file parts place hparts hlocate hfile hnone =>
    exact .file hparts ((h.locate _).trans hlocate) ((h.contains place).trans hfile)
      ((h.hasDirectory place).trans hnone)

/-! ### Reading and writing -/

/-- Reading gives the bytes of the file where the path leads, if no directory is there. -/
theorem read_eq_ok {bytes : Bytes} : d.read p = .ok bytes ↔ ∃ place, d.locate p = .ok place ∧
    d.hasDirectory place = false ∧ d.files.get? place = some bytes := by
  rw [read]
  cases d.locate p with
  | error r => simp
  | ok place =>
    cases hplace : d.hasDirectory place with
    | true => simp [hplace]
    | false => cases hfile : d.files.get? place <;> simp [hplace, hfile]

/-- Reading is refused for a NUL in the path exactly if there is one. -/
theorem read_eq_nul_iff : d.read p = .error .nul ↔ p.hasNul = true := by
  rw [← locate_eq_nul_iff (d := d), read]
  cases d.locate p with
  | error r => simp
  | ok place =>
    dsimp only
    split
    · simp
    · split <;> simp

/-- Writing is refused for a NUL only if the path has one. -/
theorem writeText_nul {t : Text} {f : Fault} (h : d.writeText p t = .error f)
    (hnul : f.refusal = .nul) : p.hasNul = true := by
  rw [← locate_eq_nul_iff (d := d)]
  rw [writeText, write] at h
  cases hlocate : d.locate p with
  | error r =>
    rw [hlocate] at h
    cases h
    exact congrArg Except.error hnul
  | ok place =>
    rw [hlocate] at h
    dsimp only at h
    split at h
    · next hwrite =>
      cases h
      split at hwrite <;> cases hwrite
      cases hnul
    · cases h

/-- What cannot be read on one disk cannot be read on another that looks alike. -/
theorem Alike.read_error (h : Alike d d') {r : Refusal} (hread : d.read p = .error r) :
    d'.read p = .error r := by
  rw [read, h.locate]
  rw [read] at hread
  cases hlocate : d.locate p with
  | error r' =>
    rw [hlocate] at hread
    exact hread
  | ok place =>
    rw [hlocate] at hread
    dsimp only at hread ⊢
    rw [h.hasDirectory]
    split at hread
    · next hplace => rw [if_pos hplace, hread]
    · next hplace =>
      have hfile := h.contains place
      rw [Table.contains, Table.contains] at hfile
      rw [if_neg hplace]
      cases hget : d.files.get? place with
      | some bytes =>
        rw [hget] at hread
        cases hread
      | none =>
        rw [hget, Option.isSome_none, Option.isSome_eq_false_iff,
          Option.isNone_iff_eq_none] at hfile
        rw [hget] at hread
        rw [hfile]
        exact hread

/-- The text in a file depends on its bytes only. -/
theorem readText_congr (h : d'.read p = d.read p) : d'.readText p = d.readText p := by
  rw [readText, readText, h]

/-- A text can be written where a path leads, unless a directory is there. -/
theorem writeText_of_locate {place : Place} (hlocate : d.locate p = .ok place)
    (hplace : d.hasDirectory place = false) (t : Text) :
    d.writeText p t = .ok { d with files := d.files.insert place (Utf8.encode t) } := by
  rw [writeText, write, hlocate]
  dsimp only
  rw [hplace, if_neg Bool.false_ne_true]

/-- A text that was written is where the path leads, and nothing else was written. -/
theorem writeText_ok {t : Text} (h : d.writeText p t = .ok d') :
    d.locate p = .ok (p.resolve d.here) ∧ d.hasDirectory (p.resolve d.here) = false ∧
      Becomes d [(p.resolve d.here, Utf8.encode t)] d' := by
  cases hlocate : d.locate p with
  | error r =>
    rw [writeText, write, hlocate] at h
    cases h
  | ok place =>
    obtain rfl := locate_eq_ok hlocate
    cases hplace : d.hasDirectory (p.resolve d.here) with
    | true =>
      rw [writeText, write, hlocate] at h
      dsimp only at h
      rw [hplace, if_pos rfl] at h
      cases h
    | false =>
      rw [writeText_of_locate hlocate hplace] at h
      cases h
      refine ⟨rfl, rfl, rfl, rfl, fun _ hq => hq, fun _ hq => .inl hq, ?_⟩
      intro entry hentry
      rw [List.mem_singleton.mp hentry]
      exact hplace

/-- What cannot be written on one disk cannot be written on another that looks alike. -/
theorem Alike.writeText_error (h : Alike d d') {t : Text} {f : Fault}
    (hwrite : d.writeText p t = .error f) : d'.writeText p t = .error f := by
  rw [writeText, write, h.locate]
  rw [writeText, write] at hwrite
  cases hlocate : d.locate p with
  | error r =>
    rw [hlocate] at hwrite
    exact hwrite
  | ok place =>
    rw [hlocate] at hwrite
    dsimp only at hwrite ⊢
    rw [h.hasDirectory]
    cases hplace : d.hasDirectory place with
    | true =>
      rw [hplace] at hwrite
      exact hwrite
    | false =>
      rw [hplace] at hwrite
      cases hwrite

end

end Disk

end OutlinePage.File
