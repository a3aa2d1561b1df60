import SchemaStitch.Text

/-! # Code points

    A character is a code point that stands for something by itself.  The code points from
    U+D800 to U+DFFF do not: UTF-16 joins two of them, a leading and a trailing half, to a
    character beyond the first 65536.  What comes from outside may hold such a half alone,
    so it is a raw text until somebody asks whether it is a text. -/

namespace SchemaStitch

/-! ## Halves -/

/-- Half of a character, by its place among the halves: the first 1024 lead, and the others
    trail. -/
abbrev Half := Fin 0x800

namespace Half

/-- The code point of a half. -/
def value (half : Half) : Nat :=
  0xD800 + half.val

/-- The character that two halves make together: the first one leads and the second one
    trails. -/
def join? (first second : Half) : Option Char :=
  if first.val < 0x400 && 0x400 ≤ second.val then
    some (Char.ofNat (0x10000 + first.val * 0x400 + (second.val - 0x400)))
  else none

end Half

/-! ## Code points -/

/-- A code point: a character, or half of one that stands alone. -/
inductive CodePoint
  | char (c : Char)
  | half (h : Half)
  deriving DecidableEq, Repr

namespace CodePoint

/-- The code point of a number, if it is not too large. -/
def ofNat? (n : Nat) : Option CodePoint :=
  if h : 0xD800 ≤ n ∧ n < 0xE000 then some (.half ⟨n - 0xD800, by omega⟩)
  else if n < 0x110000 then some (.char (Char.ofNat n))
  else none

/-- Whether a code point is half of a character. -/
def isHalf : CodePoint → Bool
  | .char _ => false
  | .half _ => true

/-- The character that a code point is. -/
def char? : CodePoint → Option Char
  | .char c => some c
  | .half _ => none

/-- The character that stands for a code point where only characters may stand: itself, or
    the replacement character in place of a half. -/
def shown : CodePoint → Char
  | .char c => c
  | .half _ => '\uFFFD'

end CodePoint

/-! ## Raw texts -/

/-- A raw text is a list of code points. -/
abbrev RawText := List CodePoint

instance : Coe String RawText := ⟨fun s => s.toList.map .char⟩

namespace RawText

/-- A text is a raw text. -/
def ofText (text : Text) : RawText :=
  text.map .char

/-- The text that a raw text is, if every code point is a character. -/
def text? (raw : RawText) : Option Text :=
  raw.mapM CodePoint.char?

/-- The text that is shown for a raw text. -/
def text (raw : RawText) : Text :=
  raw.map CodePoint.shown

/-- The characters at the front that satisfy a condition. -/
def leading (condition : Char → Bool) : RawText → Text
  | .char c :: rest => if condition c then c :: leading condition rest else []
  | _ => []

/-- The raw text that UTF-16 code units spell: two halves that fit are one character. -/
def joinHalves : RawText → RawText
  | .half first :: .half second :: rest =>
      match first.join? second with
      | some c => .char c :: joinHalves rest
      | none => .half first :: joinHalves (.half second :: rest)
  | point :: rest => point :: joinHalves rest
  | [] => []

end RawText

end SchemaStitch
