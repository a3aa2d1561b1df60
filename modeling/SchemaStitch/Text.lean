/-! # Text

    Text is a list of characters.  Everything the library reads or writes is
    such a list: positions and lengths count characters, and a function on text
    is a structural recursion.  A string literal stands for its list of
    characters.

    This file holds the operations that every printer shares: putting parts
    together, indenting a block, cutting text into lines. -/

namespace SchemaStitch

/-- A text is its list of characters. -/
abbrev Text := List Char

instance : Coe String Text := ⟨String.toList⟩

namespace Text

/-! ## Putting parts together -/

/-- The parts with `separator` between neighbours. -/
def join (separator : Text) (parts : List Text) : Text :=
  separator.intercalate parts

/-- The parts that are not empty, with `separator` between neighbours: an absent
    part takes its separator along. -/
def joinPresent (separator : Text) (parts : List Text) : Text :=
  join separator (parts.filter fun part => !part.isEmpty)

/-- A part between two fixed texts; an empty part stays empty. -/
def enclose (before : Text) (part : Text) (after : Text) : Text :=
  if part.isEmpty then [] else before ++ part ++ after

/-- Two blanks after every line end. -/
def indentTail : Text → Text
  | [] => []
  | c :: cs => if c = '\n' then '\n' :: ' ' :: ' ' :: indentTail cs else c :: indentTail cs

/-- Two blanks before every line, blank lines included. -/
def indent (text : Text) : Text :=
  ' ' :: ' ' :: indentTail text

/-- The text without the characters at its end that satisfy a condition. -/
def dropEndWhile (condition : Char → Bool) (text : Text) : Text :=
  (text.reverse.dropWhile condition).reverse

/-- Blanks on the left up to `width`; longer text is left as it is. -/
def padLeft (width : Nat) (text : Text) : Text :=
  List.replicate (width - text.length) ' ' ++ text

/-! ## Lines -/

/-- The pieces between line ends, where `ends` tells which characters end a line
    and a carriage return takes a line feed after it along.  There is always at
    least one piece. -/
def pieces (ends : Char → Bool) : Text → List Text
  | [] => [[]]
  | '\r' :: '\n' :: cs => [] :: pieces ends cs
  | c :: cs =>
      if ends c then [] :: pieces ends cs
      else match pieces ends cs with
        | [] => [[c]]
        | piece :: rest => (c :: piece) :: rest

/-- The pieces between the occurrences of a character. -/
def split (separator : Char) : Text → List Text
  | [] => [[]]
  | c :: cs =>
      if c = separator then [] :: split separator cs
      else match split separator cs with
        | [] => [[c]]
        | piece :: rest => (c :: piece) :: rest

/-- Line feed and carriage return. -/
def isNewline (c : Char) : Bool :=
  c = '\n' || c = '\r'

/-- The lines of a text: they end at a line feed, a carriage return, or both. -/
def lines (text : Text) : List Text :=
  pieces isNewline text

/-- Every line end becomes a single line feed. -/
def unifyNewlines (text : Text) : Text :=
  join ['\n'] text.lines

/-- Whether the text goes on over a line end. -/
def isMultiline (text : Text) : Bool :=
  text.contains '\n'

/-- Pieces of `width` characters, the last one possibly shorter; the first
    argument bounds their number. -/
def chunksWithin : Nat → Nat → Text → List Text
  | 0, _, _ => []
  | _, _, [] => []
  | bound + 1, width, text => text.take width :: chunksWithin bound width (text.drop width)

/-- Pieces of `width` characters, the last one possibly shorter. -/
def chunks (width : Nat) (text : Text) : List Text :=
  chunksWithin text.length width text

/-! ## Numbers -/

/-- A number in decimal digits. -/
def ofNat (n : Nat) : Text :=
  Nat.toDigits 10 n

/-- The number that decimal digits spell. -/
def toNat (digits : Text) : Nat :=
  digits.foldl (fun n c => n * 10 + (c.toNat - '0'.toNat)) 0

/-- A number in hexadecimal digits, padded with zeros up to `width`. -/
def hexadecimal (width : Nat) (n : Nat) : Text :=
  let digits := Nat.toDigits 16 n
  List.replicate (width - digits.length) '0' ++ digits

/-- Capital letters for the small ones of the ASCII alphabet. -/
def capitals (text : Text) : Text :=
  text.map Char.toUpper

/-- Small letters for the capital ones of the ASCII alphabet. -/
def smallLetters (text : Text) : Text :=
  text.map Char.toLower

/-! ## Order -/

/-- Whether one text stands before another or equals it, by code points. -/
def atMost : Text → Text → Bool
  | [], _ => true
  | _ :: _, [] => false
  | c :: cs, d :: ds => c.val < d.val || (c.val = d.val && atMost cs ds)

end Text

/-! ## Sorting -/

/-- Put an item before the first one that it may precede. -/
def insertSorted {α : Type} (atMost : α → α → Bool) (item : α) : List α → List α
  | [] => [item]
  | other :: rest =>
      if atMost item other then item :: other :: rest
      else other :: insertSorted atMost item rest

/-- The items in ascending order; equal ones keep their order. -/
def sortedBy {α : Type} (atMost : α → α → Bool) (items : List α) : List α :=
  items.foldr (insertSorted atMost) []

end SchemaStitch
