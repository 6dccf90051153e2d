import OutlinePage.Text.Basic

/-!
# UTF-8

Texts as bytes, and back. A byte sequence that is no text is refused with the first place where
decoding stops.
-/

namespace OutlinePage.Utf8

/-- The bytes of one code point. -/
def encodeChar (c : Char) : List UInt8 :=
  let n := c.toNat
  if n < 0x80 then [n.toUInt8]
  else if n < 0x800 then [(0xC0 + n / 64).toUInt8, (0x80 + n % 64).toUInt8]
  else if n < 0x10000 then
    [(0xE0 + n / 4096).toUInt8, (0x80 + n / 64 % 64).toUInt8, (0x80 + n % 64).toUInt8]
  else
    [(0xF0 + n / 262144).toUInt8, (0x80 + n / 4096 % 64).toUInt8, (0x80 + n / 64 % 64).toUInt8,
      (0x80 + n % 64).toUInt8]

/-- The bytes of a text. -/
def encode (t : Text) : List UInt8 := t.flatMap encodeChar

/-- Why bytes are no text. -/
inductive Reason where
  /-- No code point begins with this byte. -/
  | start
  /-- A byte that has to continue a code point does not, or makes a code point that does not exist.
  -/
  | continuation
  /-- The bytes end inside a code point. -/
  | truncated
deriving DecidableEq, Repr

/-- The bytes from offset `start` on, `length` of them, cannot be decoded. -/
structure Fault where
  /-- Offset of the first byte concerned. -/
  start : Nat
  /-- How many bytes are concerned, at least one. -/
  length : Nat
  /-- The first byte concerned. -/
  byte : UInt8
  reason : Reason
deriving DecidableEq, Repr

private def hexDigit (n : Nat) : Char :=
  Char.ofNat (if n < 10 then 48 + n else 87 + n)

/-- The wording of a reason. -/
def Reason.message : Reason → Text
  | .start => "invalid start byte"
  | .continuation => "invalid continuation byte"
  | .truncated => "unexpected end of data"

/-- The wording of a fault: one byte is shown, of several only their places. -/
def Fault.message (f : Fault) : Text :=
  if f.length ≤ 1 then
    "'utf-8' codec can't decode byte 0x" ++
      [hexDigit (f.byte.toNat / 16), hexDigit (f.byte.toNat % 16)] ++
      " in position " ++ Text.ofNat f.start ++ ": " ++ f.reason.message
  else
    "'utf-8' codec can't decode bytes in position " ++ Text.ofNat f.start ++ "-" ++
      Text.ofNat (f.start + f.length - 1) ++ ": " ++ f.reason.message

/-- Does the byte continue a code point? -/
def isContinuation (b : UInt8) : Bool := 0x80 ≤ b.toNat && b.toNat < 0xC0

/-- May `second` follow `first`? It has to continue, and it must make neither an overlong form nor
a surrogate nor a number above the last code point. -/
def isSecond (first second : UInt8) : Bool :=
  let a := first.toNat
  let b := second.toNat
  isContinuation second &&
    (if a == 0xE0 then 0xA0 ≤ b else if a == 0xED then b < 0xA0
     else if a == 0xF0 then 0x90 ≤ b else if a == 0xF4 then b < 0x90 else true)

/-- How the next code point reads: a character and how many bytes it takes, or how many bytes are
wrong and why. -/
def readChar : List UInt8 → Except (Nat × Reason) (Char × Nat)
  | [] => .error (0, .truncated)
  | a :: r =>
    let n := a.toNat
    if n < 0x80 then .ok (Char.ofNat n, 1)
    else if n < 0xC2 then .error (1, .start)
    else if n < 0xE0 then
      match r with
      | [] => .error (1, .truncated)
      | b :: _ =>
        if isContinuation b then .ok (Char.ofNat (n % 32 * 64 + b.toNat % 64), 2)
        else .error (1, .continuation)
    else if n < 0xF0 then
      match r with
      | [] => .error (1, .truncated)
      | b :: s =>
        if !isSecond a b then .error (1, .continuation)
        else match s with
          | [] => .error (2, .truncated)
          | c :: _ =>
            if isContinuation c then
              .ok (Char.ofNat (n % 16 * 4096 + b.toNat % 64 * 64 + c.toNat % 64), 3)
            else .error (2, .continuation)
    else if n < 0xF5 then
      match r with
      | [] => .error (1, .truncated)
      | b :: s =>
        if !isSecond a b then .error (1, .continuation)
        else match s with
          | [] => .error (2, .truncated)
          | c :: u =>
            if !isContinuation c then .error (2, .continuation)
            else match u with
              | [] => .error (3, .truncated)
              | d :: _ =>
                if isContinuation d then
                  .ok (Char.ofNat (n % 8 * 262144 + b.toNat % 64 * 4096 + c.toNat % 64 * 64 +
                    d.toNat % 64), 4)
                else .error (3, .continuation)
    else .error (1, .start)

/-- Decodes from offset `pos` on. The bytes of a code point already read are counted down in
`skip`. -/
def decodeFrom (pos skip : Nat) : List UInt8 → Except Fault Text
  | [] => .ok []
  | b :: r =>
    match skip with
    | k + 1 => decodeFrom (pos + 1) k r
    | 0 =>
      match readChar (b :: r) with
      | .ok (c, n) => (decodeFrom (pos + 1) (n - 1) r).map (c :: ·)
      | .error (n, reason) => .error ⟨pos, n, b, reason⟩

/-- The text that the bytes stand for. -/
def decode (bytes : List UInt8) : Except Fault Text := decodeFrom 0 0 bytes

end OutlinePage.Utf8
