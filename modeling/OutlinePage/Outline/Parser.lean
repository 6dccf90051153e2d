import OutlinePage.Element
import OutlinePage.Outline.Attributes
import OutlinePage.Outline.Indentation

/-!
# Reading outlines

An outline is read level by level: the tags at one depth are siblings, and what stands deeper below
a tag are its children. A level ends at the first tag that is indented less, which is left to the
level above. The reader works on rests of the code: a place in the code is the rest that begins
there, and its offset is the code's length minus that of the rest.
-/

namespace OutlinePage

/-- Why an outline is refused. -/
inductive Mistake where
  /-- The modifiers of a tag do not end. -/
  | unmatchedNest
  /-- An import names no file. -/
  | missingFile
deriving DecidableEq, Repr

/-- The wording of a mistake. -/
def Mistake.message : Mistake → Text
  | .unmatchedNest => "Unmatched nest"
  | .missingFile => "Please provide a file to import"

/-- The wording of a message about a place in a file; parts of the place may be empty. -/
def complaint (message file position : Text) : Text :=
  let place := Text.join ":" ([file, position].filter (!·.isEmpty))
  if place.isEmpty then "Spells Compile Error: " ++ message
  else "Spells Compile Error (" ++ place ++ "): " ++ message

/-- A mistake in a file, with the place as line and column. -/
structure SourceError where
  mistake : Mistake
  file : Text
  position : Text
deriving DecidableEq, Repr

/-- The wording of a mistake in a file. -/
def SourceError.message (e : SourceError) : Text := complaint e.mistake.message e.file e.position

namespace Outline

/-- A character of a tag's name. -/
def isNameChar (c : Char) : Bool :=
  Text.isAlnum c || c == '_' || c == '-' || c == '@' || c == '/'

/-- Line and column, both from 1, of an offset in the code. -/
def lineColumn (code : Text) (offset : Nat) : Nat × Nat :=
  let before := code.take offset
  (before.count '\n' + 1, (before.reverse.takeWhile (· != '\n')).length + 1)

/-- Is the character something other than a line feed? -/
def inLine (c : Char) : Bool := c != '\n'

/-- The next tag in the code. -/
structure Mark where
  /-- Tabs in front of the tag in its line. -/
  tabs : Nat
  /-- The code from the beginning of the tag's line. -/
  lineStart : Text
  /-- The tag's name. -/
  name : Text
  /-- The code after the name. -/
  rest : Text

/-- Finds the next tag name. Tabs before it are counted from the beginning of the line, and other
characters before it are passed over. -/
def nextMark (tabs : Nat) (lineStart : Text) : Text → Option Mark
  | [] => none
  | c :: r =>
    if isNameChar c then
      some ⟨tabs, lineStart, (c :: r).takeWhile isNameChar, (c :: r).dropWhile isNameChar⟩
    else if c = '\t' then nextMark (tabs + 1) lineStart r
    else if c = '\n' then nextMark 0 r r
    else nextMark tabs lineStart r

/-- Does the line at the beginning of `rest` end a block of text below a tag at depth `indent`? It
does if it is not blank and has at most that many tabs. -/
def endsBlock (indent : Nat) (rest : Text) : Bool :=
  let line := rest.takeWhile inLine
  let content := line.dropWhile (· == '\t')
  !Text.isBlankText content && line.length - content.length ≤ indent

/-- The code from the line feed on that ends a block of text below a tag at depth `indent`, at the
latest the code's last line feed. -/
def blockEnd (indent : Nat) : Text → Text
  | [] => []
  | c :: r => if c = '\n' && (r.isEmpty || endsBlock indent r) then c :: r else blockEnd indent r

/-- What a tag with its text amounts to. -/
structure TagLine where
  tag : Tag
  /-- The code after the tag and its text, from a line feed on. -/
  next : Text

/-- A text that is there only if it is not empty. -/
def textOf (t : Text) : Option Text := if t.isEmpty then none else some t

/-- The outline's code together with how it is compiled. -/
structure Source where
  code : Text
  options : Options

/-- The offset at which a rest of the code begins. -/
def Source.offset (s : Source) (rest : Text) : Nat := s.code.length - rest.length

/-- A mistake at the place where a rest of the code begins. -/
def Source.mistakeAt (s : Source) (rest : Text) (m : Mistake) : SourceError :=
  match lineColumn s.code (s.offset rest) with
  | (line, column) => ⟨m, s.options.file, Text.ofNat line ++ ":" ++ Text.ofNat column⟩

/-- Reads the tag at a mark, with its modifiers and its text. A final `.` among the modifiers makes
the deeper lines that follow the tag's text. -/
def Source.readTag (s : Source) (indent : Nat) (m : Mark) : Except SourceError TagLine :=
  match scanModifiers m.rest with
  | none => .error (s.mistakeAt m.rest .unmatchedNest)
  | some (modifiers, rest) =>
    let parts := splitModifiers (Text.strip modifiers)
    let isBlock := parts.getLast? == some "."
    let next := if isBlock then blockEnd indent rest else rest.dropWhile inLine
    let text := (rest.drop 1).take (rest.length - 1 - next.length)
    match lineColumn s.code (s.offset m.rest - m.name.length) with
    | (line, column) =>
      .ok {
        tag := {
          name := m.name
          file := s.options.file
          attributes := readAttributes s.options parts
          classes := readClasses parts
          id := readId parts
          text := textOf (if isBlock then Text.strip text else text)
          isVoid := Vocabulary.voidTags.contains m.name
          isVerbatim := Vocabulary.verbatimTags.contains m.name
          isBlock
          line
          column }
        next }

/-- After a mark the text is shorter. -/
theorem nextMark_rest_lt {tabs : Nat} {lineStart rest : Text} {m : Mark}
    (h : nextMark tabs lineStart rest = some m) : m.rest.length < rest.length := by
  fun_induction nextMark tabs lineStart rest with
  | case1 => simp at h
  | case2 tabs lineStart c r hc =>
    simp only [Option.some.injEq] at h
    subst h
    simp only [List.dropWhile_cons, hc, if_true, List.length_cons]
    exact Nat.lt_succ_of_le (List.dropWhile_sublist _).length_le
  | case3 _ _ _ _ ih => exact Nat.lt_succ_of_lt (ih h)
  | case4 _ _ _ _ _ ih => exact Nat.lt_succ_of_lt (ih h)
  | case5 _ _ _ _ _ _ _ ih => exact Nat.lt_succ_of_lt (ih h)

/-- The end of a block lies within the text. -/
theorem length_blockEnd_le (indent : Nat) (rest : Text) :
    (blockEnd indent rest).length ≤ rest.length := by
  fun_induction blockEnd indent rest with
  | case1 => simp
  | case2 => simp
  | case3 _ _ _ ih => exact Nat.le_succ_of_le ih

/-- The text after a tag is no longer than the one after its name. -/
theorem Source.readTag_next_le {s : Source} {indent : Nat} {m : Mark} {t : TagLine}
    (h : s.readTag indent m = .ok t) : t.next.length ≤ m.rest.length := by
  unfold Source.readTag at h
  split at h
  · simp at h
  · next modifiers rest hs =>
    have hrest : rest.length ≤ m.rest.length := scanFrom_rest_le hs
    simp only [Except.ok.injEq] at h
    subst h
    dsimp only
    split
    · exact Nat.le_trans (length_blockEnd_le _ _) hrest
    · exact Nat.le_trans (List.dropWhile_sublist _).length_le hrest

/-- Reads the elements at depth `indent` from `rest` on, which begins in the line that begins at
`lineStart`. Returns them with the code from which the level above carries on: the line of the
first tag that is indented less, or nothing at the end of the code. -/
def Source.readLevel (s : Source) (indent : Nat) (lineStart rest : Text) :
    Except SourceError (List Element × Text) :=
  match hm : nextMark 0 lineStart rest with
  | none => .ok ([], [])
  | some m =>
    have hm : m.rest.length < rest.length := nextMark_rest_lt hm
    if Text.startsWith "//" m.name then
      have : (m.rest.dropWhile inLine).length < rest.length :=
        Nat.lt_of_le_of_lt (List.dropWhile_sublist _).length_le hm
      s.readLevel indent m.lineStart (m.rest.dropWhile inLine)
    else if m.tabs < indent then .ok ([], m.lineStart)
    else
      match ht : s.readTag indent m with
      | .error e => .error e
      | .ok t =>
        have : t.next.length < rest.length := Nat.lt_of_le_of_lt (Source.readTag_next_le ht) hm
        let below :=
          if t.tag.isBlock || t.next.length ≤ 1 then .ok ([], t.next)
          else s.readLevel (indent + 1) t.next t.next
        match below with
        | .error e => .error e
        | .ok (children, next) =>
          let element := ⟨t.tag, children⟩
          -- What a level leaves over is shorter than what it was given, so this always holds.
          if next.length < rest.length then
            match s.readLevel indent next next with
            | .error e => .error e
            | .ok (siblings, stop) => .ok (element :: siblings, stop)
          else .ok ([element], next)
termination_by rest.length

/-- The code of a source text: tabs for indentation and a line feed at the end. -/
def codeOf (source : Text) : Text := normalizeIndentation source ++ "\n"

/-- The code from the beginning of the line on that holds the given offset. -/
def lineStartAt (code : Text) (offset : Nat) : Text :=
  code.drop (offset - ((code.take offset).reverse.takeWhile inLine).length)

/-- What reading an outline gives. -/
structure Reading where
  elements : List Element
  /-- The offset in the code at which reading stopped. -/
  stop : Nat

/-- Reads the elements at depth `indent` from the given offset of the code on. -/
def readFrom (source : Text) (options : Options) (indent start : Nat) :
    Except SourceError Reading :=
  let s : Source := ⟨codeOf source, options⟩
  match s.readLevel indent (lineStartAt s.code start) (s.code.drop start) with
  | .error e => .error e
  | .ok (elements, rest) => .ok ⟨elements, s.offset rest⟩

/-- The elements of an outline. -/
def read (source : Text) (options : Options) : Except SourceError (List Element) :=
  (readFrom source options 0 0).map (·.elements)

end Outline

end OutlinePage
