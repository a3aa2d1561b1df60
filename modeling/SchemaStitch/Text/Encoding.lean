import SchemaStitch.Text.CodePoint
import SchemaStitch.Text.Utf8

/-! # Encodings

    Bytes that come from outside hold a text in one of the encodings of Unicode.  The bytes
    tell which one: by a byte order mark, or else by the zeros among the first four of them,
    for a text in JSON starts with characters of ASCII.

    Halves of characters that stand alone are read like other code points.  They cannot be
    written again, and the attempt names the first place that holds some. -/

namespace SchemaStitch

/-! ## Numbers of several bytes -/

/-- The order of the bytes of a number: the most significant one stands first or last. -/
inductive ByteOrder
  | mostFirst
  | mostLast
  deriving DecidableEq, Repr

/-- The number that bytes spell. -/
def ByteOrder.number (order : ByteOrder) (bytes : Bytes) : Nat :=
  let significant := match order with
    | .mostFirst => bytes
    | .mostLast => bytes.reverse
  significant.foldl (fun n b => n * 0x100 + b.toNat) 0

/-- The numbers of two bytes each; none if a byte is left over. -/
def pairsOfBytes (order : ByteOrder) : Bytes → Option (List Nat)
  | [] => some []
  | a :: b :: rest => (pairsOfBytes order rest).map (order.number [a, b] :: ·)
  | [_] => none

/-- The numbers of four bytes each; none if bytes are left over. -/
def quartetsOfBytes (order : ByteOrder) : Bytes → Option (List Nat)
  | [] => some []
  | a :: b :: c :: d :: rest =>
      (quartetsOfBytes order rest).map (order.number [a, b, c, d] :: ·)
  | _ => none

/-! ## Reading -/

/-- An encoding of Unicode. -/
inductive Encoding
  | utf8
  | utf16 (order : ByteOrder)
  | utf32 (order : ByteOrder)
  deriving DecidableEq, Repr

namespace Encoding

/-- The encoding of a text in JSON, told from its first bytes. -/
def detect : Bytes → Encoding
  | 0xFF :: 0xFE :: 0 :: 0 :: _ => .utf32 .mostLast
  | 0xFE :: 0xFF :: _ => .utf16 .mostFirst
  | 0xFF :: 0xFE :: _ => .utf16 .mostLast
  | [a, b] => if a = 0 then .utf16 .mostFirst else if b = 0 then .utf16 .mostLast else .utf8
  | a :: b :: c :: d :: _ =>
      if a = 0 then if b = 0 then .utf32 .mostFirst else .utf16 .mostFirst
      else if b = 0 then if c = 0 && d = 0 then .utf32 .mostLast else .utf16 .mostLast
      else .utf8
  | _ => .utf8

/-- The half that three bytes spell in the manner of UTF-8. -/
def halfOfBytes? (bytes : Bytes) : Option CodePoint :=
  match bytes with
  | 0xED :: second :: third :: _ =>
      if 0xA0 ≤ second && Utf8.isContinuation second && Utf8.isContinuation third then
        CodePoint.ofNat? (0xD000 + Utf8.payload second * 0x40 + Utf8.payload third)
      else none
  | _ => none

/-- The raw text that bytes hold in UTF-8, where halves are read as well, at most as many
    of them as the first argument says. -/
def decodeUtf8 (bound : Nat) (bytes : Bytes) : Option RawText :=
  match Utf8.decode bytes, bound with
  | .ok text, _ => some (RawText.ofText text)
  | .error _, 0 => none
  | .error fault, bound + 1 => do
      let half ← halfOfBytes? (bytes.drop fault.first)
      let before ← (Utf8.decode (bytes.take fault.first)).toOption
      let behind ← decodeUtf8 bound (bytes.drop (fault.first + 3))
      pure (RawText.ofText before ++ half :: behind)

/-- The raw text that bytes hold, if they hold one. -/
def decode (bytes : Bytes) : Encoding → Option RawText
  | .utf8 => decodeUtf8 bytes.length bytes
  | .utf16 order => do
      let units ← pairsOfBytes order bytes
      let points ← units.mapM CodePoint.ofNat?
      pure (RawText.joinHalves points)
  | .utf32 order => do
      let numbers ← quartetsOfBytes order bytes
      numbers.mapM CodePoint.ofNat?

end Encoding

/-- The raw text without a byte order mark in front. -/
def RawText.dropMark : RawText → RawText
  | .char '\uFEFF' :: rest => rest
  | raw => raw

/-- The raw text that bytes hold in the encoding that they tell, without its byte order
    mark. -/
def RawText.ofBytes? (bytes : Bytes) : Option RawText :=
  ((Encoding.detect bytes).decode bytes).map RawText.dropMark

/-! ## Writing -/

/-- The first halves in a raw text that stand next to each other: the positions of the first
    and the last of them, and the first one. -/
structure HalfFault where
  first : Nat
  last : Nat
  half : Half
  deriving DecidableEq, Repr

/-- The message of a fault. -/
def HalfFault.message (fault : HalfFault) : Text :=
  "'utf-8' codec can't encode "
    ++ (if fault.first = fault.last then
          "character '\\u" ++ Text.hexadecimal 4 fault.half.value ++ "' in position "
            ++ Text.ofNat fault.first
        else
          "characters in position " ++ Text.ofNat fault.first ++ "-" ++ Text.ofNat fault.last)
    ++ ": surrogates not allowed"

/-- The first halves in a raw text, where `position` code points stand before it. -/
def HalfFault.find? (position : Nat) : RawText → Option HalfFault
  | [] => none
  | .char _ :: rest => HalfFault.find? (position + 1) rest
  | .half half :: rest =>
      some ⟨position, position + (rest.takeWhile CodePoint.isHalf).length, half⟩

/-- The bytes that hold a raw text in UTF-8, or the first place that cannot be written. -/
def Utf8.encodeRaw (raw : RawText) : Except HalfFault Bytes :=
  match HalfFault.find? 0 raw with
  | none => .ok (Utf8.encode raw.text)
  | some fault => .error fault

end SchemaStitch
