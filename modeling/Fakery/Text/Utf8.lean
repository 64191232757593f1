import Fakery.Text.Blank

/-!
# UTF-8

Strict decoding with the exact extent of the first fault, encoding, and the table
that sends byte offsets to character offsets.  A fault covers the longest piece
that could still have begun a character.  A text of ASCII characters needs no table.
-/

namespace Fakery.Text.Utf8

/-- Why a piece of a byte sequence is not UTF-8. -/
inductive Reason where
  | invalidStart
  | invalidContinuation
  | unexpectedEnd
  deriving DecidableEq, Repr

/-- The first piece of a byte sequence that is not UTF-8. -/
structure Fault where
  position : Nat
  piece : List UInt8
  reason : Reason
  deriving DecidableEq, Repr

def Reason.message : Reason → String
  | .invalidStart => "invalid start byte"
  | .invalidContinuation => "invalid continuation byte"
  | .unexpectedEnd => "unexpected end of data"

private def hexByte (b : UInt8) : String :=
  String.ofList [Nat.digitChar (b.toNat / 16), Nat.digitChar (b.toNat % 16)]

def Fault.message (fault : Fault) : String :=
  match fault.piece with
  | [b] =>
    s!"'utf-8' codec can't decode byte 0x{hexByte b} in position {fault.position}: "
      ++ fault.reason.message
  | piece =>
    s!"'utf-8' codec can't decode bytes in position {fault.position}-"
      ++ s!"{fault.position + piece.length - 1}: " ++ fault.reason.message

def isTail (b : UInt8) : Bool :=
  0x80 ≤ b && b ≤ 0xBF

/-- Whether `b` may follow the lead byte `lead` directly: a tail byte, except that
overlong forms, surrogates and values past the last code point are ruled out. -/
def isSecond (lead b : UInt8) : Bool :=
  isTail b && (lead != 0xE0 || 0xA0 ≤ b) && (lead != 0xED || b ≤ 0x9F)
    && (lead != 0xF0 || 0x90 ≤ b) && (lead != 0xF4 || b ≤ 0x8F)

/-- The number of bytes a lead byte announces. -/
def width (lead : UInt8) : Nat :=
  if lead ≤ 0x7F then 1
  else if 0xC2 ≤ lead && lead ≤ 0xDF then 2
  else if 0xE0 ≤ lead && lead ≤ 0xEF then 3
  else if 0xF0 ≤ lead && lead ≤ 0xF4 then 4
  else 0

def tailBits (b : UInt8) : Nat :=
  b.toNat % 64

/-- Decodes a byte sequence that starts at offset `position` of its file. -/
def decodeFrom (position : Nat) : List UInt8 → Except Fault (List Char)
  | [] => .ok []
  | a :: rest =>
    match width a with
    | 1 => do
      return Char.ofNat a.toNat :: (← decodeFrom (position + 1) rest)
    | 2 =>
      match rest with
      | [] => .error ⟨position, [a], .unexpectedEnd⟩
      | b :: rest =>
        if isTail b then do
          return Char.ofNat (a.toNat % 32 * 64 + tailBits b) :: (← decodeFrom (position + 2) rest)
        else .error ⟨position, [a], .invalidContinuation⟩
    | 3 =>
      match rest with
      | [] => .error ⟨position, [a], .unexpectedEnd⟩
      | [b] =>
        if isSecond a b then .error ⟨position, [a, b], .unexpectedEnd⟩
        else .error ⟨position, [a], .invalidContinuation⟩
      | b :: c :: rest =>
        if !isSecond a b then .error ⟨position, [a], .invalidContinuation⟩
        else if !isTail c then .error ⟨position, [a, b], .invalidContinuation⟩
        else do
          return Char.ofNat (a.toNat % 16 * 4096 + tailBits b * 64 + tailBits c)
            :: (← decodeFrom (position + 3) rest)
    | 4 =>
      match rest with
      | [] => .error ⟨position, [a], .unexpectedEnd⟩
      | [b] =>
        if isSecond a b then .error ⟨position, [a, b], .unexpectedEnd⟩
        else .error ⟨position, [a], .invalidContinuation⟩
      | [b, c] =>
        if !isSecond a b then .error ⟨position, [a], .invalidContinuation⟩
        else if !isTail c then .error ⟨position, [a, b], .invalidContinuation⟩
        else .error ⟨position, [a, b, c], .unexpectedEnd⟩
      | b :: c :: d :: rest =>
        if !isSecond a b then .error ⟨position, [a], .invalidContinuation⟩
        else if !isTail c then .error ⟨position, [a, b], .invalidContinuation⟩
        else if !isTail d then .error ⟨position, [a, b, c], .invalidContinuation⟩
        else do
          return Char.ofNat
              (a.toNat % 8 * 262144 + tailBits b * 4096 + tailBits c * 64 + tailBits d)
            :: (← decodeFrom (position + 4) rest)
    | _ => .error ⟨position, [a], .invalidStart⟩

/-- Decodes a whole file; the first fault wins. -/
def decode (bytes : List UInt8) : Except Fault (List Char) :=
  decodeFrom 0 bytes

def encode (cs : List Char) : List UInt8 :=
  cs.flatMap String.utf8EncodeChar

/-- The character offset of every byte of a text whose first character has offset
`first`, followed by the offset of its end. -/
def charOffsetsFrom (first : Nat) : List Char → List Nat
  | [] => [first]
  | c :: rest => List.replicate c.utf8Size first ++ charOffsetsFrom (first + 1) rest

def charOffsets (cs : List Char) : List Nat :=
  charOffsetsFrom 0 cs

def isAscii (cs : List Char) : Bool :=
  cs.all fun c => c.toNat < 128

/-- The character offset of a byte offset; in an ASCII text it is the byte offset
itself, and no table is built. -/
def charOffset? (cs : List Char) (byte : Nat) : Option Nat :=
  if isAscii cs then some byte else (charOffsets cs)[byte]?

/-- The characters between two byte offsets. -/
def textBetween? (cs : List Char) (start stop : Nat) : Option (List Char) := do
  return slice cs (← charOffset? cs start) (← charOffset? cs stop)

end Fakery.Text.Utf8
