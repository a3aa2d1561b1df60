import SchemaStitch.Text

/-! # Tokens

    The words of the schema language: punctuators, names, numbers, strings in two
    spellings, and the end of the text.  A token is a kind together with its value;
    its title is how messages call it. -/

namespace SchemaStitch

/-- The punctuators of the language. -/
inductive Punctuator
  | bang | dollar | ampersand | openParen | closeParen | spread | colon | equals | atSign
  | openBracket | closeBracket | openBrace | bar | closeBrace
  deriving DecidableEq, Repr

/-- How a punctuator is written. -/
def Punctuator.text : Punctuator → Text
  | .bang => "!"
  | .dollar => "$"
  | .ampersand => "&"
  | .openParen => "("
  | .closeParen => ")"
  | .spread => "..."
  | .colon => ":"
  | .equals => "="
  | .atSign => "@"
  | .openBracket => "["
  | .closeBracket => "]"
  | .openBrace => r"{"
  | .bar => "|"
  | .closeBrace => r"}"

/-- The punctuator that one character spells. -/
def Punctuator.ofChar? : Char → Option Punctuator
  | '!' => some .bang
  | '$' => some .dollar
  | '&' => some .ampersand
  | '(' => some .openParen
  | ')' => some .closeParen
  | ':' => some .colon
  | '=' => some .equals
  | '@' => some .atSign
  | '[' => some .openBracket
  | ']' => some .closeBracket
  | '{' => some .openBrace
  | '|' => some .bar
  | '}' => some .closeBrace
  | _ => none

/-- A token: the value of a number is its digits as written, the value of a string
    is what its escapes stand for. -/
inductive Token
  | punctuator (p : Punctuator)
  | name (value : Text)
  | int (digits : Text)
  | float (digits : Text)
  | string (value : Text)
  | blockString (value : Text)
  | endOfText
  deriving DecidableEq, Repr

/-- The kinds of tokens that a message may ask for. -/
inductive TokenKind
  | punctuator (p : Punctuator)
  | name | int | float | string | blockString | endOfText
  deriving DecidableEq, Repr

namespace Token

/-- The kind of a token. -/
def kind : Token → TokenKind
  | .punctuator p => .punctuator p
  | .name _ => .name
  | .int _ => .int
  | .float _ => .float
  | .string _ => .string
  | .blockString _ => .blockString
  | .endOfText => .endOfText

/-- The value of a token, if its kind has one. -/
def value? : Token → Option Text
  | .punctuator _ => none
  | .name value => some value
  | .int digits => some digits
  | .float digits => some digits
  | .string value => some value
  | .blockString value => some value
  | .endOfText => none

end Token

/-- How messages call a kind of token. -/
def TokenKind.title : TokenKind → Text
  | .punctuator p => "'" ++ p.text ++ "'"
  | .name => "Name"
  | .int => "Int"
  | .float => "Float"
  | .string => "String"
  | .blockString => "BlockString"
  | .endOfText => "<EOF>"

/-- How messages call a token: its kind, then its value in single quotes. -/
def Token.title (token : Token) : Text :=
  match token.value? with
  | none => token.kind.title
  | some value => token.kind.title ++ " '" ++ value ++ "'"

/-! ## Character classes -/

/-- The digits of ASCII. -/
def isDigit (c : Char) : Bool :=
  '0' ≤ c && c ≤ '9'

/-- The letters of ASCII and the underscore. -/
def isNameStart (c : Char) : Bool :=
  ('a' ≤ c && c ≤ 'z') || ('A' ≤ c && c ≤ 'Z') || c = '_'

/-- The characters of a name after its first one. -/
def isNameContinue (c : Char) : Bool :=
  isNameStart c || isDigit c

/-- The characters that may stand between tokens: blank, tab, comma, byte order mark
    and the line ends. -/
def isIgnored (c : Char) : Bool :=
  c = ' ' || c = '\t' || c = ',' || c = '\uFEFF' || c = '\n' || c = '\r'

/-- The value of a hexadecimal digit. -/
def hexDigit? (c : Char) : Option Nat :=
  if '0' ≤ c && c ≤ '9' then some (c.toNat - '0'.toNat)
  else if 'a' ≤ c && c ≤ 'f' then some (c.toNat - 'a'.toNat + 10)
  else if 'A' ≤ c && c ≤ 'F' then some (c.toNat - 'A'.toNat + 10)
  else none

end SchemaStitch
