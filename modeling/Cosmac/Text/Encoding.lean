import Cosmac.Text.Basic

/-!
# Text in files

Source files hold one character per byte, the character whose code is the byte.  Files that the
tools write, and the symbol files that they read back, hold UTF-8.  Reading UTF-8 fails at the
first byte sequence that is not well formed, and the failure names it.
-/

namespace Cosmac.Text

/-- The text of a file with one character per byte. -/
def ofLatin1 (bytes : List UInt8) : Text := bytes.map fun b => Char.ofNat b.toNat

/-! ### Writing UTF-8 -/

/-- A byte that continues a character: it carries six bits. -/
def continuation (n : Nat) : UInt8 := UInt8.ofNat (0x80 + n % 64)

/-- The bytes of a character. -/
def encodeChar (c : Char) : List UInt8 :=
  let n := c.toNat
  if n < 0x80 then [UInt8.ofNat n]
  else if n < 0x800 then [UInt8.ofNat (0xC0 + n / 64), continuation n]
  else if n < 0x10000 then
    [UInt8.ofNat (0xE0 + n / 4096), continuation (n / 64), continuation n]
  else
    [UInt8.ofNat (0xF0 + n / 262144), continuation (n / 4096), continuation (n / 64),
     continuation n]

/-- The bytes of a text. -/
def encodeUtf8 (t : Text) : List UInt8 := t.flatMap encodeChar

/-! ### Reading UTF-8 -/

/-- What is wrong with a byte sequence. -/
inductive Utf8Fault where
  /-- No character starts with this byte. -/
  | startByte
  /-- A byte that should continue the character cannot. -/
  | continuationByte
  /-- The bytes end inside a character. -/
  | truncated
  deriving DecidableEq, Repr

/-- The wording of a fault. -/
def Utf8Fault.message : Utf8Fault → String
  | .startByte => "invalid start byte"
  | .continuationByte => "invalid continuation byte"
  | .truncated => "unexpected end of data"

/-- Where reading failed: the bytes from position `start` on, `length` of them. -/
structure Utf8Failure where
  /-- The position of the first offending byte. -/
  start : Nat
  /-- The number of offending bytes. -/
  length : Nat
  /-- The first offending byte. -/
  byte : UInt8
  /-- What is wrong with them. -/
  fault : Utf8Fault
  deriving DecidableEq, Repr

/-- The byte continues a character. -/
def isContinuation (b : UInt8) : Bool := 0x80 ≤ b && b < 0xC0

/-- The byte can follow the first byte of a sequence of three or four: no overlong form, no
surrogate, no code point beyond the last. -/
def isSecond (first second : UInt8) : Bool :=
  isContinuation second &&
    !(first == 0xE0 && second < 0xA0) && !(first == 0xED && 0xA0 ≤ second) &&
    !(first == 0xF0 && second < 0x90) && !(first == 0xF4 && 0x90 ≤ second)

/-- The character with these leading bits and continuation bytes. -/
def ofBits (lead : Nat) (more : List UInt8) : Char :=
  Char.ofNat (more.foldl (fun n b => n * 64 + b.toNat % 64) lead)

/-- The text with these bytes, the first of which stands at `position`. -/
def decodeUtf8From (position : Nat) : List UInt8 → Except Utf8Failure Text
  | [] => .ok []
  | a :: rest =>
    let fail (length : Nat) (fault : Utf8Fault) : Except Utf8Failure Text :=
      .error ⟨position, length, a, fault⟩
    if a < 0x80 then (Char.ofNat a.toNat :: ·) <$> decodeUtf8From (position + 1) rest
    else if a < 0xC2 then fail 1 .startByte
    else if a < 0xE0 then
      match rest with
      | [] => fail 1 .truncated
      | b :: rest =>
        if !isContinuation b then fail 1 .continuationByte
        else (ofBits (a.toNat - 0xC0) [b] :: ·) <$> decodeUtf8From (position + 2) rest
    else if a < 0xF0 then
      match rest with
      | [] => fail 1 .truncated
      | b :: rest =>
        if !isSecond a b then fail 1 .continuationByte
        else
          match rest with
          | [] => fail 2 .truncated
          | c :: rest =>
            if !isContinuation c then fail 2 .continuationByte
            else (ofBits (a.toNat - 0xE0) [b, c] :: ·) <$> decodeUtf8From (position + 3) rest
    else if a < 0xF5 then
      match rest with
      | [] => fail 1 .truncated
      | b :: rest =>
        if !isSecond a b then fail 1 .continuationByte
        else
          match rest with
          | [] => fail 2 .truncated
          | c :: rest =>
            if !isContinuation c then fail 2 .continuationByte
            else
              match rest with
              | [] => fail 3 .truncated
              | d :: rest =>
                if !isContinuation d then fail 3 .continuationByte
                else
                  (ofBits (a.toNat - 0xF0) [b, c, d] :: ·) <$>
                    decodeUtf8From (position + 4) rest
    else fail 1 .startByte

/-- The text with these bytes. -/
def decodeUtf8 (bytes : List UInt8) : Except Utf8Failure Text := decodeUtf8From 0 bytes

end Cosmac.Text
