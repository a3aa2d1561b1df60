import SchemaStitch.Text

/-! # Line breaks, blanks and digits of Unicode

    Documentation is cut into lines at every line break of Unicode, and a line
    loses the blanks at its end.  Both sets are wider than those of the schema
    language, which knows only line feed and carriage return as line ends.

    Every script has its ten digits in a row, so the table of digits lists where the
    rows begin (Unicode 14.0). -/

namespace SchemaStitch.Text

/-! ## Line breaks and blanks -/

/-- The characters that end a line of documentation: line feed, vertical tab, form
    feed, carriage return, the separators U+001C to U+001E, next line, line
    separator and paragraph separator. -/
def isLineBreak (c : Char) : Bool :=
  (0x0A ≤ c.toNat && c.toNat ≤ 0x0D) || (0x1C ≤ c.toNat && c.toNat ≤ 0x1E)
    || c.toNat = 0x85 || c.toNat = 0x2028 || c.toNat = 0x2029

/-- The white space of Unicode together with the separators U+001C to U+001F. -/
def isBlank (c : Char) : Bool :=
  (0x09 ≤ c.toNat && c.toNat ≤ 0x0D) || (0x1C ≤ c.toNat && c.toNat ≤ 0x20)
    || c.toNat = 0x85 || c.toNat = 0xA0 || c.toNat = 0x1680
    || (0x2000 ≤ c.toNat && c.toNat ≤ 0x200A) || c.toNat = 0x2028 || c.toNat = 0x2029
    || c.toNat = 0x202F || c.toNat = 0x205F || c.toNat = 0x3000

/-- Whether a text holds blanks only. -/
def isAllBlank (text : Text) : Bool :=
  text.all isBlank

/-- The text without the blanks at its end. -/
def trimEnd : Text → Text
  | [] => []
  | c :: cs =>
      match trimEnd cs with
      | [] => if isBlank c then [] else [c]
      | d :: ds => c :: d :: ds

/-- The text without the characters at its ends that satisfy a condition. -/
def stripped (condition : Char → Bool) (text : Text) : Text :=
  dropEndWhile condition (text.dropWhile condition)

/-- The blanks of ASCII. -/
def isAsciiBlank (c : Char) : Bool :=
  isBlank c && c.toNat < 0x80

/-- The pieces without an empty last one. -/
def dropEmptyLast : List Text → List Text
  | [] => []
  | [piece] => if piece.isEmpty then [] else [piece]
  | piece :: next :: rest => piece :: dropEmptyLast (next :: rest)

/-- The lines of documentation; a line break at the very end opens no further
    line. -/
def paragraphLines (text : Text) : List Text :=
  dropEmptyLast (pieces isLineBreak text)

/-! ## Digits -/

/-- The zeros of Unicode; nine more digits stand behind each. -/
def zeros : List Nat :=
  [0x30, 0x660, 0x6F0, 0x7C0, 0x966, 0x9E6, 0xA66, 0xAE6, 0xB66, 0xBE6, 0xC66, 0xCE6, 0xD66,
   0xDE6, 0xE50, 0xED0, 0xF20, 0x1040, 0x1090, 0x17E0, 0x1810, 0x1946, 0x19D0, 0x1A80, 0x1A90,
   0x1B50, 0x1BB0, 0x1C40, 0x1C50, 0xA620, 0xA8D0, 0xA900, 0xA9D0, 0xA9F0, 0xAA50, 0xABF0,
   0xFF10, 0x104A0, 0x10D30, 0x11066, 0x110F0, 0x11136, 0x111D0, 0x112F0, 0x11450, 0x114D0,
   0x11650, 0x116C0, 0x11730, 0x118E0, 0x11950, 0x11C50, 0x11D50, 0x11DA0, 0x16A60, 0x16AC0,
   0x16B50, 0x1D7CE, 0x1D7D8, 0x1D7E2, 0x1D7EC, 0x1D7F6, 0x1E140, 0x1E2F0, 0x1E950, 0x1FBF0]

/-- Whether a character is a decimal digit of some script. -/
def isDecimal (c : Char) : Bool :=
  zeros.any fun first => first ≤ c.toNat && c.toNat < first + 10

end SchemaStitch.Text
