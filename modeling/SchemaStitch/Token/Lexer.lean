import SchemaStitch.Token
import SchemaStitch.Token.BlockString

/-! # From text to tokens

    The lexer cuts a text into lexemes: tokens with the place where they start and
    stop.  Characters between tokens and comments are skipped.  The last lexeme is
    the end of the text or the first fault; what stands behind a fault is not read.

    Each reader below starts at the head of a text and tells how many characters it
    takes, or how far on a fault lies.  `lexemes` walks over the text one character at
    a time and counts down the characters that the last token took. -/

namespace SchemaStitch

/-- What can keep a text from being a sequence of tokens. -/
inductive LexicalFault
  | unexpectedCharacter (c : Char)
  | singleQuote
  | digitAfterZero (found : Char)
  | digitExpected (found : Option Char)
  | unterminatedString
  | characterEscape (written : Text)
  | unicodeEscape (written : Text)
  deriving DecidableEq, Repr

/-- How messages show the character at a place, or the end of the text. -/
def showCharacter : Option Char → Text
  | none => "<EOF>"
  | some c =>
      if c = '"' then "'\"'"
      else if ' ' ≤ c && c ≤ '~' then ['\'', c, '\'']
      else "U+" ++ (Text.hexadecimal 4 c.toNat).capitals

/-- The message of a lexical fault. -/
def LexicalFault.message : LexicalFault → Text
  | .unexpectedCharacter c => "Unexpected character: " ++ showCharacter (some c) ++ "."
  | .singleQuote =>
      "Unexpected single quote character ('), did you mean to use a double quote (\")?"
  | .digitAfterZero found =>
      "Invalid number, unexpected digit after 0: " ++ showCharacter (some found) ++ "."
  | .digitExpected found =>
      "Invalid number, expected digit but got: " ++ showCharacter found ++ "."
  | .unterminatedString => "Unterminated string."
  | .characterEscape written => "Invalid character escape sequence: '" ++ written ++ "'."
  | .unicodeEscape written => "Invalid Unicode escape sequence: '" ++ written ++ "'."

/-- The outcome of reading at the head of a text: a value and the number of characters
    that it takes, or a fault and the number of characters before it. -/
abbrev Reading (α : Type) := Except (LexicalFault × Nat) (α × Nat)

namespace Reading

/-- The outcome seen from `count` characters before, with the value changed by `f`. -/
def later {α β : Type} (count : Nat) (f : α → β) : Reading α → Reading β
  | .ok (value, size) => .ok (f value, count + size)
  | .error (fault, distance) => .error (fault, count + distance)

/-- Read a second part of `text` behind a first one and put the two together. -/
def followedBy (text : Text) (first : Reading Text) (second : Text → Reading Text) :
    Reading Text :=
  match first with
  | .ok (part, size) => (second (text.drop size)).later size (part ++ ·)
  | .error fault => .error fault

end Reading

namespace Lexer

/-! ## Numbers -/

/-- One or more digits. -/
def digitRun (text : Text) : Reading Text :=
  match text.takeWhile isDigit with
  | [] => .error (.digitExpected text.head?, 0)
  | digits => .ok (digits, digits.length)

/-- An optional minus sign. -/
def minusSign : Text → Reading Text
  | '-' :: _ => .ok (['-'], 1)
  | _ => .ok ([], 0)

/-- The integer part of a number: a single zero, or digits. -/
def integerPart : Text → Reading Text
  | '0' :: c :: _ =>
      if isDigit c then .error (.digitAfterZero c, 1) else .ok (['0'], 1)
  | text => digitRun text

/-- The optional fractional part of a number. -/
def fractionalPart : Text → Reading Text
  | '.' :: rest => (digitRun rest).later 1 ('.' :: ·)
  | _ => .ok ([], 0)

/-- The optional exponent part of a number. -/
def exponentPart : Text → Reading Text
  | c :: rest =>
      if c = 'e' || c = 'E' then
        match rest with
        | sign :: rest' =>
            if sign = '+' || sign = '-' then (digitRun rest').later 2 (c :: sign :: ·)
            else (digitRun rest).later 1 (c :: ·)
        | [] => (digitRun rest).later 1 (c :: ·)
      else .ok ([], 0)
  | [] => .ok ([], 0)

/-- A number must not run into a dot or a name. -/
def numberEnd : Text → Reading Text
  | c :: _ =>
      if c = '.' || isNameStart c then .error (.digitExpected (some c), 0) else .ok ([], 0)
  | [] => .ok ([], 0)

/-- A number as it is written. -/
def number (text : Text) : Reading Text :=
  let signed := (minusSign text).followedBy text integerPart
  let withFraction := signed.followedBy text fractionalPart
  let withExponent := withFraction.followedBy text exponentPart
  withExponent.followedBy text numberEnd

/-- Digits that hold a dot or an exponent make a float, others an integer. -/
def numberToken (digits : Text) : Token :=
  if digits.any fun c => c = '.' || c = 'e' || c = 'E' then .float digits else .int digits

/-! ## Strings -/

/-- The number that four hexadecimal digits at the head of a text spell. -/
def fourHexDigits : Text → Option Nat
  | a :: b :: c :: d :: _ => do
      let a ← hexDigit? a
      let b ← hexDigit? b
      let c ← hexDigit? c
      let d ← hexDigit? d
      pure (((a * 16 + b) * 16 + c) * 16 + d)
  | _ => none

/-- Code points that are no halves of a surrogate pair. -/
def isScalar (n : Nat) : Bool :=
  n < 0xD800 || (0xE000 ≤ n && n ≤ 0x10FFFF)

/-- The escape of a code point by four digits, or by a pair of surrogates; the text
    starts at its backslash. -/
def fixedWidthEscape (text : Text) : Except LexicalFault (Char × Nat) :=
  let fault : LexicalFault := .unicodeEscape (text.take 6)
  match fourHexDigits (text.drop 2) with
  | none => .error fault
  | some code =>
      if isScalar code then .ok (Char.ofNat code, 6)
      else if code < 0xDC00 && ['\\', 'u'].isPrefixOf (text.drop 6) then
        match fourHexDigits (text.drop 8) with
        | none => .error fault
        | some low =>
            if 0xDC00 ≤ low && low ≤ 0xDFFF then
              .ok (Char.ofNat (0x10000 + (code - 0xD800) * 0x400 + (low - 0xDC00)), 12)
            else .error fault
      else .error fault

/-- The digits of an escape in braces, read from `size` characters behind its backslash
    on with at most `room` characters left; the code point and the size of the whole
    escape, or the size of what was read before it failed. -/
def bracedDigits : Nat → Nat → Nat → Text → Except Nat (Char × Nat)
  | 0, size, _, _ => .error size
  | _, size, _, [] => .error size
  | room + 1, size, code, c :: rest =>
      if c = '}' then
        if size < 4 || !isScalar code then .error (size + 1)
        else .ok (Char.ofNat code, size + 1)
      else match hexDigit? c with
        | none => .error (size + 1)
        | some digit => bracedDigits room (size + 1) (code * 16 + digit) rest

/-- The escape of a code point in braces, at most twelve characters; the text starts at
    its backslash. -/
def bracedEscape (text : Text) : Except LexicalFault (Char × Nat) :=
  match bracedDigits 9 3 0 (text.drop 3) with
  | .ok result => .ok result
  | .error size => .error (.unicodeEscape (text.take size))

/-- The character that a letter behind a backslash stands for. -/
def escapedCharacter? : Char → Option Char
  | '"' => some '"'
  | '\\' => some '\\'
  | '/' => some '/'
  | 'b' => some '\x08'
  | 'f' => some '\x0C'
  | 'n' => some '\n'
  | 'r' => some '\r'
  | 't' => some '\t'
  | _ => none

/-- An escape: the character that it stands for and the characters that it takes; the
    text starts at its backslash. -/
def escapeSequence (text : Text) : Except LexicalFault (Char × Nat) :=
  match text with
  | _ :: 'u' :: '{' :: _ => bracedEscape text
  | _ :: 'u' :: _ => fixedWidthEscape text
  | _ :: c :: _ =>
      match escapedCharacter? c with
      | some d => .ok (d, 2)
      | none => .error (.characterEscape (text.take 2))
  | _ => .error (.characterEscape (text.take 2))

/-- The value of a string behind its opening quote, and the characters up to the closing
    quote and with it.  The first argument counts the characters of the last escape
    that are still to be passed over. -/
def stringBody : Nat → Text → Reading Text
  | _, [] => .error (.unterminatedString, 0)
  | skip + 1, _ :: rest => (stringBody skip rest).later 1 id
  | 0, c :: rest =>
      if c = '"' then .ok ([], 1)
      else if c = '\\' then
        match escapeSequence (c :: rest) with
        | .ok (d, size) => (stringBody (size - 1) rest).later 1 (d :: ·)
        | .error fault => .error (fault, 0)
      else if Text.isNewline c then .error (.unterminatedString, 0)
      else (stringBody 0 rest).later 1 (c :: ·)

/-- The text of a block string behind its opening quotes, and the characters up to the
    closing quotes and with them. -/
def blockBody : Text → Reading Text
  | [] => .error (.unterminatedString, 0)
  | '"' :: '"' :: '"' :: _ => .ok ([], 3)
  | '\\' :: '"' :: '"' :: '"' :: rest => (blockBody rest).later 4 (['"', '"', '"'] ++ ·)
  | c :: rest => (blockBody rest).later 1 (c :: ·)

/-! ## Lexemes -/

/-- The token at the head of a text that starts with neither an ignored character nor a
    comment. -/
def readToken (text : Text) : Reading Token :=
  match text with
  | [] => .ok (.endOfText, 0)
  | '.' :: '.' :: '.' :: _ => .ok (.punctuator .spread, 3)
  | '"' :: '"' :: '"' :: rest =>
      (blockBody rest).later 3 fun content => .blockString (BlockString.valueOf content)
  | '"' :: rest => (stringBody 0 rest).later 1 .string
  | c :: _ =>
      match Punctuator.ofChar? c with
      | some p => .ok (.punctuator p, 1)
      | none =>
          if isNameStart c then
            let name := text.takeWhile isNameContinue
            .ok (.name name, name.length)
          else if isDigit c || c = '-' then (number text).later 0 numberToken
          else if c = '\'' then .error (.singleQuote, 0)
          else .error (.unexpectedCharacter c, 0)

/-- The text of a comment behind its number sign: all up to the line end. -/
def commentBody (text : Text) : Text :=
  text.takeWhile fun c => !Text.isNewline c

end Lexer

/-- A token with the place where it starts and the place behind it, or the first fault
    and its place. -/
structure Lexeme where
  token : Except LexicalFault Token
  start : Nat
  stop : Nat

namespace Lexer

/-- The lexemes of a text that starts at `position`; the first argument counts the
    characters that are still to be passed over. -/
def lexemesFrom : Nat → Nat → Text → List Lexeme
  | _, position, [] => [⟨.ok .endOfText, position, position⟩]
  | skip + 1, position, _ :: rest => lexemesFrom skip (position + 1) rest
  | 0, position, c :: rest =>
      if isIgnored c then lexemesFrom 0 (position + 1) rest
      else if c = '#' then lexemesFrom (commentBody rest).length (position + 1) rest
      else match readToken (c :: rest) with
        | .error (fault, distance) => [⟨.error fault, position + distance, position + distance⟩]
        | .ok (token, size) =>
            ⟨.ok token, position, position + size⟩ :: lexemesFrom (size - 1) (position + 1) rest

/-- The lexemes of a text; the last one is the end of the text or the first fault. -/
def lexemes (text : Text) : List Lexeme :=
  lexemesFrom 0 0 text

end Lexer

end SchemaStitch
