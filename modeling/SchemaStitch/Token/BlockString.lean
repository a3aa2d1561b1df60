import SchemaStitch.Text

/-! # Block strings

    A block string may go over several lines.  Its value leaves out the indentation
    that its lines share and the blank lines around them; printing puts the value
    back between triple quotes, on lines of its own where it needs them.

    Reading and printing agree on what ends a line: a line feed, a carriage return or both.
    Other separators, such as U+2028, U+0085 or a vertical tab, are characters like any other
    here, although they end a line where a description becomes comment lines. -/

namespace SchemaStitch.BlockString

/-- Blank and tab, the only characters that indent a line. -/
def isIndent (c : Char) : Bool :=
  c = ' ' || c = '\t'

/-- Whether a line holds nothing but indentation. -/
def isBlankLine (line : Text) : Bool :=
  line.all isIndent

/-- The width of a line's indentation. -/
def indentWidth (line : Text) : Nat :=
  (line.takeWhile isIndent).length

/-- The least indentation of the lines that are not blank; none if all are. -/
def commonIndent : List Text → Option Nat
  | [] => none
  | line :: rest =>
      if isBlankLine line then commonIndent rest
      else match commonIndent rest with
        | none => some (indentWidth line)
        | some width => some (min (indentWidth line) width)

/-- The lines without the blank ones at either end. -/
def trimBlankLines (lines : List Text) : List Text :=
  ((lines.dropWhile isBlankLine).reverse.dropWhile isBlankLine).reverse

/-- The lines after the first one lose the indentation that they share, then the
    blank lines at either end go. -/
def dedent : List Text → List Text
  | [] => []
  | first :: rest =>
      let width := (commonIndent rest).getD 0
      trimBlankLines (first :: rest.map (List.drop width))

/-- The value of a block string from the text between its quotes, escapes resolved. -/
def valueOf (content : Text) : Text :=
  Text.join ['\n'] (dedent content.lines)

/-- A backslash before every three quotes. -/
def escape : Text → Text
  | '"' :: '"' :: '"' :: cs => '\\' :: '"' :: '"' :: '"' :: escape cs
  | c :: cs => c :: escape cs
  | [] => []

/-- The last character of a text is `c`. -/
def endsWith (c : Char) (text : Text) : Bool :=
  text.getLast? = some c

/-- The value ends in three quotes, which are escaped when it is written. -/
def endsInEscapedQuotes (value : Text) : Bool :=
  ("\\\"\"\"" : Text).isSuffixOf (escape value)

/-- A line end must stand before the closing quotes, or they would run into a quote
    or a backslash at the end of the value. -/
def needsTrailingNewline (value : Text) : Bool :=
  (endsWith '"' value && !endsInEscapedQuotes value) || endsWith '\\' value

/-- A line end must stand after the opening quotes, or the lines after the first one
    would be read as sharing indentation. -/
def needsLeadingNewline (value : Text) : Bool :=
  match (escape value).lines with
  | _ :: line :: rest =>
      (line :: rest).all fun l => match l with
        | [] => true
        | c :: _ => isIndent c
  | _ => false

/-- The value goes on lines of its own: it has several, it is longer than seventy
    characters, or its end or beginning asks for a line end. -/
def onOwnLines (value : Text) : Bool :=
  (escape value).lines.length > 1 || value.length > 70 || needsTrailingNewline value
    || needsLeadingNewline value || endsInEscapedQuotes value

/-- A single line that starts with indentation, which has to stay behind the opening
    quotes to be kept. -/
def isIndentedLine (value : Text) : Bool :=
  (escape value).lines.length = 1 && match value with
    | [] => false
    | c :: _ => isIndent c

/-- A block string with the given value. -/
def print (value : Text) : Text :=
  "\"\"\""
    ++ (if (onOwnLines value && !isIndentedLine value) || needsLeadingNewline value
        then ['\n'] else [])
    ++ escape value
    ++ (if onOwnLines value || needsTrailingNewline value then ['\n'] else [])
    ++ "\"\"\""

end SchemaStitch.BlockString
