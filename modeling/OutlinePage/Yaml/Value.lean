import OutlinePage.Text.Decimal
import OutlinePage.Yaml.Node

/-!
# Values of YAML documents

What a document stands for is up to the one who loads it. A loader of its own is given here, which
knows the common kinds of values.
-/

namespace OutlinePage.Yaml

/-- A value that a document holds. -/
inductive Value where
  | null
  | bool (b : Bool)
  | int (n : Int)
  | float (x : Float)
  | date (year month day : Nat)
  | text (t : Text)
  | list (items : List Value)
  | dict (entries : List (Value × Value))
  /-- A value of another kind, as far as it is looked at: the name of the kind, how the value is
  shown, whether it counts as something, and the values in it, if it is made of several. -/
  | other (kind shown : Text) (isSomething : Bool) (items : Option (List Value))
deriving Repr, Inhabited

namespace Value

/-- Is the value neither nothing, nor false, nor zero, nor empty? -/
def isTruthy : Value → Bool
  | .null => false
  | .bool b => b
  | .int n => n != 0
  | .float x => x != 0
  | .date .. => true
  | .text t => !t.isEmpty
  | .list items => !items.isEmpty
  | .dict entries => !entries.isEmpty
  | .other _ _ isSomething _ => isSomething

/-- How the kind of the value is called in messages. -/
def kind : Value → Text
  | .null => "NoneType"
  | .bool _ => "bool"
  | .int _ => "int"
  | .float _ => "float"
  | .date .. => "datetime.date"
  | .text _ => "str"
  | .list _ => "list"
  | .dict _ => "dict"
  | .other kind .. => kind

/-- The value as messages show it. -/
def render : Value → Text
  | .null => "None"
  | .bool b => if b then "True" else "False"
  | .int n => Text.ofInt n
  | .float x => Decimal.render x
  | .date y m d =>
    "datetime.date(" ++ Text.ofNat y ++ ", " ++ Text.ofNat m ++ ", " ++ Text.ofNat d ++ ")"
  | .text t => Text.quote t
  | .list items => "[" ++ Text.join ", " (renderEach items) ++ "]"
  | .dict entries => "\x7b" ++ Text.join ", " (renderEntries entries) ++ "\x7d"
  | .other _ shown .. => shown
where
  renderEach : List Value → List Text
    | [] => []
    | v :: vs => render v :: renderEach vs
  renderEntries : List (Value × Value) → List Text
    | [] => []
    | (k, v) :: es => (render k ++ ": " ++ render v) :: renderEntries es

/-- The number that a value is, truth values included. -/
def number? : Value → Option (Int ⊕ Float)
  | .bool b => some (.inl b.toNat)
  | .int n => some (.inl n)
  | .float x => some (.inr x)
  | _ => none

/-- Are two values the same key? Numbers are, if they are equal, whatever their kind. -/
def sameKey (a b : Value) : Bool :=
  match a.number?, b.number? with
  | some (.inl m), some (.inl n) => m == n
  | some (.inr x), some (.inr y) => x == y
  | some (.inl m), some (.inr y) => Float.ofInt m == y
  | some (.inr x), some (.inl n) => x == Float.ofInt n
  | none, none =>
    match a, b with
    | .null, .null => true
    | .text s, .text t => s == t
    | .date y m d, .date y' m' d' => y == y' && m == m' && d == d'
    | _, _ => false
  | _, _ => false

/-- Writes the value at a key: in its place if present, at the end otherwise. -/
def put (k v : Value) : List (Value × Value) → List (Value × Value)
  | [] => [(k, v)]
  | (k', v') :: es => if sameKey k' k then (k', v) :: es else (k', v') :: put k v es

/-- The value at a key that is a text. -/
def find? (key : Text) (entries : List (Value × Value)) : Option Value :=
  (entries.find? fun e => sameKey e.1 (.text key)).map (·.2)

/-- May the value be a key? -/
def isKey : Value → Bool
  | .list _ => false
  | .dict _ => false
  | _ => true

end Value

/-- How a text becomes the value of the document in it. -/
abbrev Loader := Text → Except Fault Value

/-- The number that digits to a base stand for. -/
def digitsToNat (base : Nat) (t : Text) : Nat := t.foldl (fun n c => base * n + hexValue c) 0

/-- The integer that a text stands for; nothing if digits are missing. -/
def intOf (t : Text) : Option Int :=
  let t := t.filter (· != '_')
  let u := unsigned t
  let sign : Int := if Text.startsWith "-" t then -1 else 1
  let digits (base : Nat) (isDigit : Char → Bool) (d : Text) : Option Int :=
    if d.isEmpty || !d.all isDigit then none else some (sign * (digitsToNat base d : Int))
  if u == "0" then some 0
  else if Text.startsWith "0b" u then digits 2 (fun c => c == '0' || c == '1') (u.drop 2)
  else if Text.startsWith "0x" u then digits 16 isHexDigit (u.drop 2)
  else if Text.startsWith "0" u then digits 8 (fun c => '0' ≤ c && c ≤ '7') u
  else if u.contains ':' then
    let groups := Text.split ':' u
    if groups.all fun g => !g.isEmpty && g.all Char.isDigit then
      some (sign * (groups.foldl (fun n g => 60 * n + digitsToNat 10 g) 0 : Nat))
    else none
  else digits 10 Char.isDigit u

/-- The number that digits with a point and an exponent stand for. -/
def decimalOf (t : Text) : Option Float :=
  let body := t.takeWhile fun c => c != 'e'
  let exponent := t.drop (body.length + 1)
  let whole := body.takeWhile (· != '.')
  let fraction := body.drop (whole.length + 1)
  let digits := whole ++ fraction
  let power : Option Int := if body.length == t.length then some 0
    else if (unsigned exponent).isEmpty || !(unsigned exponent).all Char.isDigit then none
    else some ((if Text.startsWith "-" exponent then -1 else 1) *
      (digitsToNat 10 (unsigned exponent) : Int))
  if digits.isEmpty || !digits.all Char.isDigit then none
  else power.map fun (p : Int) =>
    let p : Int := p - fraction.length
    Float.ofScientific (digitsToNat 10 digits) (p < 0) p.natAbs

/-- The number with a decimal point that a text stands for. -/
def floatOf (t : Text) : Option Float :=
  let t := (t.filter (· != '_')).map Char.toLower
  let u := unsigned t
  let signed (x : Float) : Float := if Text.startsWith "-" t then -x else x
  if u == ".inf" then some (signed (1.0 / 0.0))
  else if u == ".nan" then some (0.0 / 0.0)
  else if u.contains ':' then do
    let groups ← (Text.split ':' u).mapM decimalOf
    let sum := groups.reverse.foldl (fun (sum, base) x => (sum + x * base, base * 60)) ((0.0 : Float), (1.0 : Float))
    return signed sum.1
  else (decimalOf u).map signed

/-- How many days a month has. -/
def daysIn (year month : Nat) : Nat :=
  if month == 2 then
    if year % 4 == 0 && (year % 100 != 0 || year % 400 == 0) then 29 else 28
  else if month == 4 || month == 6 || month == 9 || month == 11 then 30 else 31

/-- The date that a text stands for. -/
def dateOf (t : Text) : Except Fault Value :=
  match (Text.split '-' t).map (digitsToNat 10) with
  | [y, m, d] =>
    if y == 0 then .error (.noSuchValue "year 0 is out of range")
    else if m == 0 || m > 12 then .error (.noSuchValue "month must be in 1..12")
    else if d == 0 || d > daysIn y m then .error (.noSuchValue "day is out of range for month")
    else .ok (.date y m d)
  | _ => .ok (.text t)

/-- The value of a scalar with one of the language's own tags. -/
def scalarValue (kind text : Text) : Except Fault Value :=
  if kind == "null" then .ok .null
  else if kind == "bool" then
    match boolTexts.find? fun e => e.1 == text.map Char.toLower with
    | some (_, b) => .ok (.bool b)
    | none => .error (.noSuchValue (Text.quote (text.map Char.toLower)))
  else if kind == "int" then
    match intOf text with
    | some n => .ok (.int n)
    | none =>
      .error (.noSuchValue ("invalid literal for int() with base 10: " ++ Text.quote text))
  else if kind == "float" then
    match floatOf text with
    | some x => .ok (.float x)
    | none => .error (.noSuchValue ("could not convert string to float: " ++ Text.quote text))
  else if kind == "timestamp" then dateOf text
  else .ok (.text text)

/-- The tags of the language for scalars. -/
def scalarKinds : List Text := ["null", "bool", "int", "float", "timestamp", "str", "value"]

/-- A fault with the level of the tree where it comes up: the faults of outer levels come first. -/
abbrev Level := Nat

/-- Which of two results counts if both are needed: the fault of the outer level, of two on one
level the first. -/
def both {α β : Type} (a : Except (Level × Fault) α) (b : Except (Level × Fault) β) :
    Except (Level × Fault) (α × β) :=
  match a, b with
  | .ok x, .ok y => .ok (x, y)
  | .error e, .ok _ => .error e
  | .ok _, .error e => .error e
  | .error e, .error e' => .error (if e'.1 < e.1 then e' else e)

/-- The pairs of a mapping with those of the mappings that are merged into it in front. -/
def mergedPairs (m : Mark) : Nat → List (Node × Node) → Except Fault (List (Node × Node))
  | 0, ps => .ok ps
  | fuel + 1, ps => do
    let isMerge (p : Node × Node) : Bool := p.1.tag == tagStart ++ "merge"
    let inner ← (ps.filter isMerge).mapM fun (_, v) =>
      match v with
      | .mapping _ qs m' => mergedPairs m' fuel qs
      | .sequence _ items _ => do
        let each ← items.mapM fun item =>
          match item with
          | .mapping _ qs m' => mergedPairs m' fuel qs
          | n => throw (.misplaced (some ⟨"while constructing a mapping", some m⟩)
              ("expected a mapping for merging, but found " ++ n.label) n.mark)
        return each.reverse.flatten
      | n => throw (.misplaced (some ⟨"while constructing a mapping", some m⟩)
          ("expected a mapping or list of mappings for merging, but found " ++ n.label) n.mark)
    return inner.flatten ++ ps.filter (!isMerge ·)

/-- A fault about the kind of a node. -/
def wrongKind (wanted : Text) (n : Node) : Fault :=
  .misplaced none ("expected a " ++ wanted ++ " node, but found " ++ n.label) n.mark

section

/-! `valueOf` gives the value of a node one level further down. -/

variable (valueOf : Node → Except (Level × Fault) Value)

/-- The values of the items of a sequence. -/
def values : List Node → Except (Level × Fault) (List Value)
  | [] => .ok []
  | n :: ns => (both (valueOf n) (values ns)).map fun (v, vs) => v :: vs

/-- The key of an entry of a mapping. -/
def keyOf (level : Level) (m : Mark) (k : Node) : Except (Level × Fault) Value :=
  match valueOf k with
  | .ok key =>
    if key.isKey then .ok key
    else .error (level, .misplaced (some ⟨"while constructing a mapping", some m⟩)
      "found unhashable key" k.mark)
  | .error e => .error e

/-- The entries of a mapping; a later one takes the place of an earlier one with the same key. -/
def entries (level : Level) (m : Mark) :
    List (Node × Node) → List (Value × Value) → Except (Level × Fault) (List (Value × Value))
  | [], done => .ok done
  | (k, v) :: ps, done =>
    match both (keyOf valueOf level m k) (valueOf v) with
    | .ok (key, value) => entries level m ps (Value.put key value done)
    | .error e => (both (.error e : Except _ Unit) (entries level m ps done)).map (·.2)

end

/-- The value of a node at a level of the tree. -/
def valueOf : Nat → Level → Node → Except (Level × Fault) Value
  | 0, _, _ => .ok .null
  | fuel + 1, level, n =>
    let isOwn := Text.startsWith tagStart n.tag
    let kind := n.tag.drop tagStart.length
    let unknown : Except (Level × Fault) Value :=
      .error (level, .misplaced none
        ("could not determine a constructor for the tag " ++ Text.quote n.tag) n.mark)
    if !isOwn then unknown
    else if kind == "seq" then
      match n with
      | .sequence _ items _ => (values (valueOf fuel (level + 1)) items).map .list
      | n => .error (level + 1, wrongKind "sequence" n)
    else if kind == "map" then
      match n with
      | .mapping _ ps m =>
        match mergedPairs m fuel ps with
        | .ok ps => (entries (valueOf fuel (level + 1)) (level + 1) m ps []).map .dict
        | .error f => .error (level + 1, f)
      | n => .error (level + 1, wrongKind "mapping" n)
    else if scalarKinds.contains kind then
      match n with
      | .scalar _ text _ => (scalarValue kind text).mapError (level, ·)
      | n => .error (level, wrongKind "scalar" n)
    else unknown

/-- The value of the only document in a text; a text without a document holds nothing. -/
def load : Loader := fun t =>
  match readNode t with
  | .error f => .error f
  | .ok none => .ok .null
  | .ok (some n) => (valueOf (t.length + 10) 0 n).mapError (·.2)

end OutlinePage.Yaml
