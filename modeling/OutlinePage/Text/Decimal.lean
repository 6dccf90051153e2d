import OutlinePage.Text.Basic

/-!
# Decimal texts of floating-point numbers

The text of a number has the fewest digits that read back as the same number. It is written with a
point if the first digit stands between the fourth place after the point and the sixteenth before
it, and with an exponent otherwise.
-/

namespace OutlinePage.Decimal

/-- A finite positive number `mantissa · 2 ^ exponent`. -/
structure Binary where
  mantissa : Nat
  exponent : Int
deriving DecidableEq, Repr

/-- A power of two. -/
def two (n : Nat) : Nat := Nat.pow 2 n

/-- A power of ten. -/
def ten (n : Nat) : Nat := Nat.pow 10 n

/-- A finite positive number from the bits of its encoding. -/
def ofBits (bits : Nat) : Binary :=
  let fraction := bits % two 52
  let field := bits / two 52 % two 11
  if field == 0 then ⟨fraction, -1074⟩ else ⟨two 52 + fraction, (field : Int) - 1075⟩

/-- A number as a fraction, four times over so that its neighbours' midpoints are whole. -/
def scaled (b : Binary) : Nat × Nat :=
  if b.exponent ≥ 0 then (4 * b.mantissa * two b.exponent.toNat, 4)
  else (4 * b.mantissa, 4 * two (-b.exponent).toNat)

/-- How far the numbers that round to `b` reach below and above it, in the unit of `scaled`. -/
def reach (b : Binary) : Nat × Nat :=
  let unit := if b.exponent ≥ 0 then two b.exponent.toNat else 1
  let isPower := b.mantissa == two 52 && b.exponent > -1074
  (if isPower then unit else 2 * unit, 2 * unit)

/-- Does `digits · 10 ^ place` round to `b`? A midpoint does if the mantissa is even. -/
def reads (b : Binary) (digits : Nat) (place : Int) : Bool :=
  let (n, d) := scaled b
  let (below, above) := reach b
  let up := ten place.toNat
  let down := ten (-place).toNat
  let x := digits * up * d
  let low := (n - below) * down
  let high := (n + above) * down
  if b.mantissa % 2 == 0 then low ≤ x && x ≤ high else low < x && x < high

/-- The place of the first digit: the number is at least ten to it, and less than ten to the next.
-/
def firstPlace (b : Binary) : Int :=
  let (n, d) := scaled b
  if n ≥ d then ((Nat.toDigits 10 (n / d)).length : Int) - 1
  else
    let zeros := ((List.range 400).takeWhile fun k => n * ten (k + 1) < d).length
    Int.negSucc zeros

/-- The digits of the number with `count` of them that round to it, the nearer of its two
neighbours first. -/
def candidate? (b : Binary) (first : Int) (count : Nat) : Option (Nat × Int) :=
  let (n, d) := scaled b
  let place := first - count + 1
  let top := n * ten (-place).toNat
  let bottom := d * ten place.toNat
  let lower := top / bottom
  let twice := 2 * (top % bottom)
  let upFirst := twice > bottom || twice == bottom && lower % 2 == 1
  let order := if upFirst then [lower + 1, lower] else [lower, lower + 1]
  (order.find? fun digits => reads b digits place).map (·, place)

/-- The fewest digits that read back as the number, and the place of the last of them. -/
def shortest (b : Binary) : Nat × Int :=
  let first := firstPlace b
  ((List.range 17).findSome? fun k => candidate? b first (k + 1)).getD (0, 0)

/-- Digits without zeros at their end, and the place of the last of them. -/
def trim : Nat → Nat × Int → Nat × Int
  | 0, r => r
  | fuel + 1, (digits, place) =>
    if digits != 0 && digits % 10 == 0 then trim fuel (digits / 10, place + 1) else (digits, place)

/-- The text of digits whose last stands at a place. -/
def write (digits : Nat) (place : Int) : Text :=
  let ds := Text.ofNat digits
  let first := place + ds.length - 1
  if -4 ≤ first && first < 16 then
    if place ≥ 0 then ds ++ List.replicate place.toNat '0' ++ ".0"
    else if first ≥ 0 then ds.take (first.toNat + 1) ++ "." ++ ds.drop (first.toNat + 1)
    else "0." ++ List.replicate (-first - 1).toNat '0' ++ ds
  else
    let size := Text.ofNat first.natAbs
    let size := if size.length < 2 then '0' :: size else size
    let sign : Text := if first < 0 then "-" else "+"
    let rest : Text := if ds.length > 1 then "." ++ ds.drop 1 else []
    ds.take 1 ++ rest ++ "e" ++ sign ++ size

/-- The text of a number. -/
def render (x : Float) : Text :=
  let bits := x.toBits.toNat
  let sign : Text := if bits ≥ two 63 then "-" else []
  let bits := bits % two 63
  if bits == 0 then sign ++ "0.0"
  else if bits == 0x7FF0000000000000 then sign ++ "inf"
  else if bits > 0x7FF0000000000000 then "nan"
  else
    let (digits, place) := trim 20 (shortest (ofBits bits))
    sign ++ write digits place

end OutlinePage.Decimal
