import SchemaStitch.Json
import SchemaStitch.Token

/-! # Reading JSON

    A reader takes characters from the front of a text and yields a value and the rest.
    A fault keeps the text at the place where it lies; `Json.parse` turns that into an
    offset.

    Beyond the standard, the words for infinities and for what is not a number are read,
    and strings may hold halves of characters that stand alone.  A repeated name in an
    object keeps its place and takes its last value.  Integers have at most 4300 digits. -/

namespace SchemaStitch

/-- What can keep a text from being JSON. -/
inductive JsonFault
  | valueExpected
  | nameExpected
  | colonExpected
  | commaExpected
  | extraData
  | unterminatedString
  | controlCharacter
  | badEscape
  | badUnicodeEscape
  | numberTooLong
  deriving DecidableEq, Repr

/-- The message of a fault. -/
def JsonFault.message : JsonFault → Text
  | .valueExpected => "Expecting value"
  | .nameExpected => "Expecting property name enclosed in double quotes"
  | .colonExpected => "Expecting ':' delimiter"
  | .commaExpected => "Expecting ',' delimiter"
  | .extraData => "Extra data"
  | .unterminatedString => "Unterminated string starting at"
  | .controlCharacter => "Invalid control character at"
  | .badEscape => "Invalid \\escape"
  | .badUnicodeEscape => "Invalid \\uXXXX escape"
  | .numberTooLong => "Exceeds the limit for integer string conversion"

/-- A fault at an offset of a text. -/
structure JsonError where
  fault : JsonFault
  offset : Nat
  deriving DecidableEq, Repr

namespace Json

/-- A value and the rest, or a fault and the text from its place on. -/
abbrev Reading (α : Type) := Except (JsonFault × RawText) (α × RawText)

/-- The text without the white space at its front. -/
def skipSpace (text : RawText) : RawText :=
  text.drop (text.leading fun c => c = ' ' || c = '\t' || c = '\n' || c = '\r').length

/-- How many digits an integer may have. -/
def maximalDigits : Nat := 4300

/-! ## Numbers -/

/-- A minus sign at the front of a text. -/
def leadingMinus : RawText → Text
  | .char '-' :: _ => ['-']
  | _ => []

/-- The integer part of a number: a single zero, or digits that start with another one;
    empty if there is none. -/
def integerDigits : RawText → Text
  | .char '0' :: _ => ['0']
  | text => text.leading isDigit

/-- The digits of a fraction behind its dot; none if there is no fraction. -/
def fractionDigits : RawText → Text
  | .char '.' :: rest => RawText.leading isDigit rest
  | _ => []

/-- The sign of an exponent. -/
def exponentSign : RawText → Text
  | .char '+' :: _ => ['+']
  | .char '-' :: _ => ['-']
  | _ => []

/-- The sign and the digits of an exponent behind its letter; no digits if there is no
    exponent. -/
def exponentDigits : RawText → Text × Text
  | .char c :: rest =>
      if c = 'e' || c = 'E' then
        let sign := exponentSign rest
        (sign, RawText.leading isDigit (rest.drop sign.length))
      else ([], [])
  | _ => ([], [])

/-- The integer that digits with a sign spell. -/
def signedInt (sign digits : Text) : Int :=
  if sign = ['-'] then -(Text.toNat digits : Int) else Text.toNat digits

/-- A number at the front of a text. -/
def readNumber (text : RawText) : Reading Json :=
  let sign := leadingMinus text
  let rest := text.drop sign.length
  let integer := integerDigits rest
  let rest := rest.drop integer.length
  let fraction := fractionDigits rest
  let rest := if fraction.isEmpty then rest else rest.drop (1 + fraction.length)
  let (exponentSign, exponent) := exponentDigits rest
  let rest :=
    if exponent.isEmpty then rest else rest.drop (1 + exponentSign.length + exponent.length)
  if integer.isEmpty then .error (.valueExpected, text)
  else if fraction.isEmpty && exponent.isEmpty then
    if integer.length > maximalDigits then .error (.numberTooLong, text)
    else .ok (.int (signedInt sign integer), rest)
  else
    .ok (.float (Binary64.ofDecimal (sign = ['-']) (Text.toNat (integer ++ fraction))
      (signedInt exponentSign exponent - fraction.length)), rest)

/-! ## Strings -/

/-- The code unit that four hexadecimal digits at the front of a text spell. -/
def codeUnit? : RawText → Option Nat
  | .char a :: .char b :: .char c :: .char d :: _ => do
      let a ← hexDigit? a
      let b ← hexDigit? b
      let c ← hexDigit? c
      let d ← hexDigit? d
      pure (((a * 16 + b) * 16 + c) * 16 + d)
  | _ => none

/-- The character that a letter behind a backslash stands for. -/
def escaped? : CodePoint → Option CodePoint
  | .char '"' => some (.char '"')
  | .char '\\' => some (.char '\\')
  | .char '/' => some (.char '/')
  | .char 'b' => some (.char '\x08')
  | .char 'f' => some (.char '\x0C')
  | .char 'n' => some (.char '\n')
  | .char 'r' => some (.char '\r')
  | .char 't' => some (.char '\t')
  | _ => none

/-- The character that a half makes together with an escape that follows, if it leads and
    the escape spells a half that trails; something must stand behind that escape. -/
def joinEscape (half : Half) (rest : RawText) : Except (JsonFault × RawText) (Option Char) :=
  match rest with
  | .char '\\' :: .char 'u' :: digits =>
      if half.val < 0x400 && !(digits.drop 4).isEmpty then
        match codeUnit? digits with
        | none => .error (.badUnicodeEscape, rest.drop 1)
        | some unit =>
            match CodePoint.ofNat? unit with
            | some (.half trailing) => .ok (half.join? trailing)
            | _ => .ok none
      else .ok none
  | _ => .ok none

/-- An escape by a code unit, where the text starts at its letter: a code point, and how
    many code points of the text it takes.  Something must stand behind the escape, and two
    escapes may spell the halves of one character. -/
def unicodeEscape (text : RawText) : Except (JsonFault × RawText) (CodePoint × Nat) :=
  match codeUnit? (text.drop 1) with
  | none => .error (.badUnicodeEscape, text)
  | some unit =>
      match CodePoint.ofNat? unit, text.drop 5 with
      | none, _ => .error (.badUnicodeEscape, text)
      | some _, [] => .error (.badUnicodeEscape, text)
      | some (.char c), _ => .ok (.char c, 5)
      | some (.half half), rest => do
          match ← joinEscape half rest with
          | some c => pure (.char c, 11)
          | none => pure (.half half, 5)

/-- An escape: a code point, and how many code points behind the backslash it takes; the
    text starts at the backslash, and `opening` at the quote that opens the string. -/
def escapeSequence (opening text : RawText) : Except (JsonFault × RawText) (CodePoint × Nat) :=
  match text with
  | _ :: .char 'u' :: digits => unicodeEscape (.char 'u' :: digits)
  | _ :: letter :: _ =>
      match escaped? letter with
      | none => .error (.badEscape, text)
      | some point => .ok (point, 1)
  | _ => .error (.unterminatedString, opening)

/-- Whether a code point is a control character. -/
def isControl : CodePoint → Bool
  | .char c => c.toNat < 0x20
  | .half _ => false

/-- The value of a string behind its opening quote, where `opening` is the text from that
    quote on, and the first argument after it counts the code points of the last escape
    that are still to be passed over. -/
def readStringBody (opening : RawText) : Nat → RawText → Reading RawText
  | _, [] => .error (.unterminatedString, opening)
  | skip + 1, _ :: rest => readStringBody opening skip rest
  | 0, point :: rest =>
      if point = .char '"' then .ok ([], rest)
      else if point = .char '\\' then
        match escapeSequence opening (point :: rest) with
        | .error fault => .error fault
        | .ok (escaped, size) =>
            (readStringBody opening size rest).map fun (value, rest) => (escaped :: value, rest)
      else if isControl point then .error (.controlCharacter, point :: rest)
      else (readStringBody opening 0 rest).map fun (value, rest) => (point :: value, rest)

/-- A string at the front of a text. -/
def readString : RawText → Reading RawText
  | .char '"' :: rest => readStringBody (.char '"' :: rest) 0 rest
  | text => .error (.valueExpected, text)

/-! ## Values -/

/-- The words that stand for values. -/
def words : List (RawText × Json) :=
  [("null", .null), ("true", .bool true), ("false", .bool false), ("NaN", .float .undefined),
    ("Infinity", .float (.infinite false)), ("-Infinity", .float (.infinite true))]

/-- A word or number at the front of a text. -/
def readScalar (text : RawText) : Reading Json :=
  match words.find? fun word => word.1.isPrefixOf text with
  | some (word, value) => .ok (value, text.drop word.length)
  | none => readNumber text

/-- The items of an array behind its bracket or a comma, given how to read one; the first
    argument bounds their number. -/
def readItems (item : RawText → Reading Json) :
    Nat → RawText → Except (JsonFault × RawText) (List Json × RawText)
  | 0, text => .error (.valueExpected, text)
  | bound + 1, text => do
      let (first, rest) ← item text
      match skipSpace rest with
      | .char ']' :: rest => pure ([first], rest)
      | .char ',' :: rest =>
          let (others, rest) ← readItems item bound (skipSpace rest)
          pure (first :: others, rest)
      | rest => .error (.commaExpected, rest)

/-- The fields of an object behind its brace or a comma, put behind those that were read
    already. -/
def readFields (item : RawText → Reading Json) :
    Nat → List (RawText × Json) → RawText →
      Except (JsonFault × RawText) (List (RawText × Json) × RawText)
  | 0, _, text => .error (.nameExpected, text)
  | bound + 1, fields, text => do
      let (name, rest) ← match text with
        | .char '"' :: _ => readString text
        | _ => .error (.nameExpected, text)
      match skipSpace rest with
      | .char ':' :: rest =>
          let (value, rest) ← item (skipSpace rest)
          let fields := Keyed.set name value fields
          match skipSpace rest with
          | .char '}' :: rest => pure (fields, rest)
          | .char ',' :: rest => readFields item bound fields (skipSpace rest)
          | rest => .error (.commaExpected, rest)
      | rest => .error (.colonExpected, rest)

/-- A value at the front of a text, at most as many arrays and objects deep as the first
    argument says. -/
def readValue : Nat → RawText → Reading Json
  | 0, text => .error (.valueExpected, text)
  | depth + 1, text =>
      match text with
      | .char '"' :: _ => (readString text).map fun (value, rest) => (.string value, rest)
      | .char '[' :: rest =>
          match skipSpace rest with
          | .char ']' :: rest => .ok (.array [], rest)
          | rest =>
              (readItems (readValue depth) (rest.length + 1) rest).map fun (items, rest) =>
                (.array items, rest)
      | .char '{' :: rest =>
          match skipSpace rest with
          | .char '}' :: rest => .ok (.object [], rest)
          | rest =>
              (readFields (readValue depth) (rest.length + 1) [] rest).map fun (fields, rest) =>
                (.object fields, rest)
      | _ => readScalar text

/-- The value that a text holds. -/
def parse (text : RawText) : Except JsonError Json :=
  let locate (fault : JsonFault × RawText) : JsonError :=
    ⟨fault.1, text.length - fault.2.length⟩
  match readValue (text.length + 1) (skipSpace text) with
  | .error fault => .error (locate fault)
  | .ok (value, rest) =>
      match skipSpace rest with
      | [] => .ok value
      | rest => .error (locate (.extraData, rest))

end Json

end SchemaStitch
