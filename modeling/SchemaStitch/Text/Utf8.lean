import SchemaStitch.Text

/-! # UTF-8

    Files hold bytes.  Reading them decodes UTF-8 and reports the first place where
    the bytes are none: the bytes that were read as the start of a character up to
    the one that spoils it, and what is wrong there. -/

namespace SchemaStitch

/-- The content of a file. -/
abbrev Bytes := List UInt8

namespace Utf8

/-- What can be wrong with bytes that should be UTF-8. -/
inductive Reason
  | invalidStart
  | invalidContinuation
  | unexpectedEnd
  deriving DecidableEq, Repr

/-- The first place that is not UTF-8: its first and last byte by position, the value
    of the first one, and the reason. -/
structure Fault where
  first : Nat
  last : Nat
  byte : UInt8
  reason : Reason
  deriving DecidableEq, Repr

/-- The words for a reason. -/
def Reason.message : Reason → Text
  | .invalidStart => "invalid start byte"
  | .invalidContinuation => "invalid continuation byte"
  | .unexpectedEnd => "unexpected end of data"

/-- The message of a fault; a single byte is shown by its value. -/
def Fault.message (fault : Fault) : Text :=
  "'utf-8' codec can't decode "
    ++ (if fault.first = fault.last then
          "byte 0x" ++ Text.hexadecimal 2 fault.byte.toNat ++ " in position "
            ++ Text.ofNat fault.first
        else
          "bytes in position " ++ Text.ofNat fault.first ++ "-" ++ Text.ofNat fault.last)
    ++ ": " ++ fault.reason.message

/-- Bytes that continue a character. -/
def isContinuation (b : UInt8) : Bool :=
  0x80 ≤ b && b ≤ 0xBF

/-- The number of bytes that a first byte announces; none for a byte that starts no
    character. -/
def announced (b : UInt8) : Option Nat :=
  if b < 0x80 then some 1
  else if 0xC2 ≤ b && b ≤ 0xDF then some 2
  else if 0xE0 ≤ b && b ≤ 0xEF then some 3
  else if 0xF0 ≤ b && b ≤ 0xF4 then some 4
  else none

/-- Whether a second byte may follow a first one: a continuation that makes the
    character neither overlong, nor a surrogate, nor larger than any code point. -/
def mayFollow (b second : UInt8) : Bool :=
  isContinuation second
    && (b != 0xE0 || 0xA0 ≤ second)
    && (b != 0xED || second < 0xA0)
    && (b != 0xF0 || 0x90 ≤ second)
    && (b != 0xF4 || second < 0x90)

/-- The six bits that a continuation byte carries. -/
def payload (b : UInt8) : Nat :=
  b.toNat % 0x40

/-- The first fault in a character that starts with `b` at `position`, announces
    `size` bytes and cannot be read, when `rest` follows. -/
def faultAt (position : Nat) (b : UInt8) (size : Nat) (rest : Bytes) : Fault :=
  match rest with
  | [] => ⟨position, position, b, .unexpectedEnd⟩
  | second :: rest =>
      if !mayFollow b second then ⟨position, position, b, .invalidContinuation⟩
      else match rest with
        | [] => ⟨position, position + 1, b, .unexpectedEnd⟩
        | third :: rest =>
            if !isContinuation third then ⟨position, position + 1, b, .invalidContinuation⟩
            else match rest with
              | [] => ⟨position, position + 2, b,
                  if size = 4 then .unexpectedEnd else .invalidContinuation⟩
              | _ :: _ => ⟨position, position + 2, b, .invalidContinuation⟩

/-- Decode bytes from `position` on. -/
def decodeFrom (position : Nat) : Bytes → Except Fault Text
  | [] => .ok []
  | b :: rest =>
      match announced b with
      | none => .error ⟨position, position, b, .invalidStart⟩
      | some 1 => (decodeFrom (position + 1) rest).map (Char.ofNat b.toNat :: ·)
      | some 2 =>
          match rest with
          | second :: rest' =>
              if mayFollow b second then
                (decodeFrom (position + 2) rest').map
                  (Char.ofNat (b.toNat % 0x20 * 0x40 + payload second) :: ·)
              else .error (faultAt position b 2 (second :: rest'))
          | [] => .error (faultAt position b 2 [])
      | some 3 =>
          match rest with
          | second :: third :: rest' =>
              if mayFollow b second && isContinuation third then
                (decodeFrom (position + 3) rest').map
                  (Char.ofNat (b.toNat % 0x10 * 0x1000 + payload second * 0x40
                    + payload third) :: ·)
              else .error (faultAt position b 3 (second :: third :: rest'))
          | short => .error (faultAt position b 3 short)
      | some _ =>
          match rest with
          | second :: third :: fourth :: rest' =>
              if mayFollow b second && isContinuation third && isContinuation fourth then
                (decodeFrom (position + 4) rest').map
                  (Char.ofNat (b.toNat % 0x08 * 0x40000 + payload second * 0x1000
                    + payload third * 0x40 + payload fourth) :: ·)
              else .error (faultAt position b 4 (second :: third :: fourth :: rest'))
          | short => .error (faultAt position b 4 short)

/-- The text that bytes hold, or the first place that is not UTF-8. -/
def decode (bytes : Bytes) : Except Fault Text :=
  decodeFrom 0 bytes

/-- The bytes that hold a text. -/
def encode (text : Text) : Bytes :=
  text.flatMap String.utf8EncodeChar

end Utf8

end SchemaStitch
