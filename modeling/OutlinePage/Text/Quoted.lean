import OutlinePage.Text.Basic

/-!
# Quoted texts

Two uses of quotes. An attribute value may be written between quotes, of which one layer can be
taken off. A text shown in a message is written between quotes with its special characters escaped.
-/

namespace OutlinePage.Text

/-- A single or a double quote. -/
def isQuote (c : Char) : Bool := c == '"' || c == '\''

/-- Takes one layer of quotes off a value that begins and ends with the same quote. -/
def unquote (v : Text) : Text :=
  match v with
  | q :: r => if isQuote q && !r.isEmpty && r.getLast? == some q then r.dropLast else v
  | [] => v

/-- The lower-case hexadecimal digits of `n`, padded with zeros to `width`. -/
def hex (width n : Nat) : Text :=
  let digits := Nat.toDigits 16 n
  List.replicate (width - digits.length) '0' ++ digits

/-- Characters that are shown by their number: controls, formatting marks, separators other than
the space, private use and noncharacters. -/
def isUnprintable (c : Char) : Bool :=
  let n := c.toNat
  n < 0x20 || (0x7F ≤ n && n ≤ 0xA0) || n == 0xAD || (0x600 ≤ n && n ≤ 0x605) || n == 0x61C ||
    n == 0x6DD || n == 0x70F || (0x890 ≤ n && n ≤ 0x891) || n == 0x8E2 || n == 0x1680 ||
    n == 0x180E || (0x2000 ≤ n && n ≤ 0x200F) || (0x2028 ≤ n && n ≤ 0x202F) ||
    (0x205F ≤ n && n ≤ 0x206F) || n == 0x3000 || (0xE000 ≤ n && n ≤ 0xF8FF) || n == 0xFEFF ||
    (0xFDD0 ≤ n && n ≤ 0xFDEF) || (0xFFF0 ≤ n && n ≤ 0xFFFB) || n % 0x10000 ≥ 0xFFFE ||
    (0xE0000 ≤ n && n ≤ 0xE00FF) || 0xE01F0 ≤ n

/-- One character inside quotes of the kind `q`. -/
def quoteChar (q c : Char) : Text :=
  if c = q || c = '\\' then ['\\', c]
  else if c = '\n' then "\\n"
  else if c = '\r' then "\\r"
  else if c = '\t' then "\\t"
  else if isUnprintable c then
    let n := c.toNat
    if n < 0x100 then "\\x" ++ hex 2 n
    else if n < 0x10000 then "\\u" ++ hex 4 n
    else "\\U" ++ hex 8 n
  else [c]

/-- A text as messages show it: between single quotes, or between double quotes when it holds a
single quote and no double quote. -/
def quote (t : Text) : Text :=
  let q := if t.contains '\'' && !t.contains '"' then '"' else '\''
  [q] ++ t.flatMap (quoteChar q) ++ [q]

end OutlinePage.Text
