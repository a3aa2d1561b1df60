import SchemaStitch.Binary64
import SchemaStitch.Keyed
import SchemaStitch.Text.CodePoint

/-! # JSON values

    The fields of an object keep the order in which they were written, and each name
    occurs once.  A number is an integer, or it is rounded to a binary number.  Escapes can
    spell halves of characters, so strings and names are raw texts. -/

namespace SchemaStitch

/-- A JSON value. -/
inductive Json
  | null
  | bool (value : Bool)
  | int (value : Int)
  | float (value : Binary64)
  | string (value : RawText)
  | array (items : List Json)
  | object (fields : List (RawText × Json))
  deriving Repr

namespace Json

/-! ## Values made of texts -/

/-- The string that a text is. -/
def text (value : Text) : Json :=
  .string (RawText.ofText value)

/-- A text, or null in its place. -/
def optionalText : Option Text → Json
  | none => .null
  | some value => .text value

/-- The object with fields by their names. -/
def record (fields : List (Text × Json)) : Json :=
  .object (fields.map fun (name, value) => (RawText.ofText name, value))

/-- The value of a field of an object. -/
def field? (name : Text) : Json → Option Json
  | .object fields => Keyed.get? (RawText.ofText name) fields
  | _ => none

/-! ## Printing -/

/-- The digits of an integer. -/
def printInt (n : Int) : Text :=
  if n < 0 then '-' :: Text.ofNat n.natAbs else Text.ofNat n.natAbs

/-- The escape of a code unit. -/
def escapeUnit (unit : Nat) : Text :=
  "\\u" ++ Text.hexadecimal 4 unit

/-- A code point inside double quotes. -/
def escapePoint : CodePoint → RawText
  | .half half => [.half half]
  | .char c =>
      if c = '"' then "\\\""
      else if c = '\\' then "\\\\"
      else if c = '\n' then "\\n"
      else if c = '\r' then "\\r"
      else if c = '\t' then "\\t"
      else if c = '\x08' then "\\b"
      else if c = '\x0C' then "\\f"
      else if c.toNat < 0x20 then RawText.ofText (escapeUnit c.toNat)
      else [.char c]

/-- A string in double quotes. -/
def printString (value : RawText) : RawText :=
  .char '"' :: (value.flatMap escapePoint ++ [.char '"'])

/-- Parts with commas between neighbours. -/
def commaSeparated (parts : List RawText) : RawText :=
  List.intercalate [.char ','] parts

mutual

/-- A value in its shortest form, without white space. -/
def print : Json → RawText
  | .null => "null"
  | .bool true => "true"
  | .bool false => "false"
  | .int value => RawText.ofText (printInt value)
  | .float value => RawText.ofText value.print
  | .string value => printString value
  | .array items => "[" ++ commaSeparated (printItems items) ++ "]"
  | .object fields => r"{" ++ commaSeparated (printFields fields) ++ r"}"

/-- The items of an array. -/
def printItems : List Json → List RawText
  | [] => []
  | item :: rest => item.print :: printItems rest

/-- The fields of an object. -/
def printFields : List (RawText × Json) → List RawText
  | [] => []
  | (name, value) :: rest =>
      (printString name ++ .char ':' :: value.print) :: printFields rest

end

/-- The escapes of a character: two code units for one beyond the first 65536. -/
def escapeUnits (c : Char) : Text :=
  let n := c.toNat
  if n < 0x10000 then escapeUnit n
  else escapeUnit (0xD800 + (n - 0x10000) / 0x400) ++ escapeUnit (0xDC00 + (n - 0x10000) % 0x400)

/-- A printed code point in printable ASCII. -/
def asciiPoint : CodePoint → Text
  | .char c => if 0x20 ≤ c.toNat && c.toNat < 0x7F then [c] else escapeUnits c
  | .half half => escapeUnit half.value

/-- A value in its shortest form, in printable ASCII: what else is printed stands inside
    double quotes, where escapes may take its place. -/
def printAscii (value : Json) : Text :=
  value.print.flatMap asciiPoint

/-! ## Finite numbers -/

mutual

/-- Whether every number in a value is finite. -/
def isFinite : Json → Bool
  | .float value => value.isFinite
  | .array items => areFinite items
  | .object fields => fieldsAreFinite fields
  | _ => true

/-- Whether every number in the items is finite. -/
def areFinite : List Json → Bool
  | [] => true
  | item :: rest => item.isFinite && areFinite rest

/-- Whether every number in the fields is finite. -/
def fieldsAreFinite : List (RawText × Json) → Bool
  | [] => true
  | (_, value) :: rest => value.isFinite && fieldsAreFinite rest

end

end Json

end SchemaStitch
