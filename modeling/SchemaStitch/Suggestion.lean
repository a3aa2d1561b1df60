import SchemaStitch.Token

/-! # Suggestions

    A message about an unknown name offers the known names that it may stand for: those
    that few edits lead to.  An edit inserts, deletes or changes a character or swaps two
    neighbours; capital and small letters do not differ.  The nearest names come first,
    names equally near in natural order, in which runs of digits count as numbers. -/

namespace SchemaStitch

/-- A run of digits too long to be compared as a number. -/
structure NumeralTooLong where
  digits : Nat
  deriving DecidableEq, Repr

/-- How many digits a number may have. -/
def maximalNumeral : Nat := 4300

/-- The message about a run of digits that is too long. -/
def NumeralTooLong.message (error : NumeralTooLong) : Text :=
  "Exceeds the limit (4300 digits) for integer string conversion: value has "
    ++ Text.ofNat error.digits
    ++ " digits; use sys.set_int_max_str_digits() to increase the limit"

/-! ## Distance -/

/-- The cells of a row of the distance table behind its first one.  The row belongs to the
    character `c` behind `before`; `left` is the cell to the left, `passed` the character
    of the other text to the left, `up` holds the row above from one column to the left
    on, and `twoUp` the row above that one from two columns to the left on. -/
def distanceCells (c : Char) (before : Option Char) (left : Nat) (passed : Option Char) :
    Text → List Nat → List Nat → List Nat
  | d :: ds, diagonal :: above :: up, twoUp =>
      let edit := min (min (above + 1) (left + 1)) (if c = d then diagonal else diagonal + 1)
      let cell := match passed, twoUp with
        | some e, swap :: _ => if c = e && before = some d then min edit (swap + 1) else edit
        | _, _ => edit
      cell :: distanceCells c before cell (some d) ds (above :: up)
        (if passed.isNone then twoUp else twoUp.tail)
  | _, _, _ => []

/-- The last cell of the distance table, where `row` rows are done and `up` and `twoUp` are
    the last two; none as soon as every cell of a row is above the threshold. -/
def distanceRows (threshold : Nat) (other : Text) (row : Nat) (before : Option Char)
    (up twoUp : List Nat) : Text → Option Nat
  | [] => up.getLast?.filter (· ≤ threshold)
  | c :: cs =>
      let cells := (row + 1) :: distanceCells c before (row + 1) none other up twoUp
      if cells.all (· > threshold) then none
      else distanceRows threshold other (row + 1) (some c) cells up cs

/-- The number of edits between two names, if it is at most the threshold.  Names that
    differ in capital and small letters only are one edit apart. -/
def editDistance (threshold : Nat) (name other : Text) : Option Nat :=
  let small := name.smallLetters
  let otherSmall := other.smallLetters
  if name = other then some 0
  else if small = otherSmall then some 1
  else if small.length - otherSmall.length > threshold
      || otherSmall.length - small.length > threshold then none
  else distanceRows threshold otherSmall 0 none (List.range (otherSmall.length + 1)) [] small

/-! ## Natural order -/

/-- The runs of a text that are no digits and digits by turns, the first of them no digits;
    the flag tells whether digits come first instead.  The last run is no digits. -/
def naturalRuns (inDigits : Bool) : Text → List Text
  | [] => if inDigits then [[], []] else [[]]
  | c :: cs =>
      if isDigit c = inDigits then
        match naturalRuns inDigits cs with
        | [] => [[c]]
        | run :: rest => (c :: run) :: rest
      else match naturalRuns (!inDigits) cs with
        | [] => [[], [c]]
        | run :: rest => [] :: (c :: run) :: rest

/-- What names are compared by: the runs of a name, digits with their number. -/
abbrev NaturalKey := List (Nat × Text)

/-- The runs of a name with their numbers, zero for those that are no digits. -/
def naturalKeyOf (inDigits : Bool) : List Text → Except NumeralTooLong NaturalKey
  | [] => .ok []
  | run :: rest =>
      if inDigits && run.length > maximalNumeral then .error ⟨run.length⟩
      else
        let number := if inDigits then
          run.foldl (fun n c => n * 10 + (c.toNat - '0'.toNat)) 0 else 0
        (naturalKeyOf (!inDigits) rest).map ((number, run) :: ·)

/-- The key of a name. -/
def naturalKey (name : Text) : Except NumeralTooLong NaturalKey :=
  naturalKeyOf false (naturalRuns false name)

/-- Whether one key stands before another or equals it. -/
def naturalAtMost : NaturalKey → NaturalKey → Bool
  | [], _ => true
  | _ :: _, [] => false
  | (m, s) :: rest, (n, t) :: others =>
      if m = n && s = t then naturalAtMost rest others
      else m < n || (m = n && Text.atMost s t)

/-! ## Candidates -/

/-- A candidate with what it is sorted by. -/
structure Candidate where
  name : Text
  distance : Nat
  key : NaturalKey

/-- Whether one candidate is offered before another. -/
def Candidate.atMost (first second : Candidate) : Bool :=
  first.distance < second.distance
    || (first.distance = second.distance && naturalAtMost first.key second.key)

/-- The names without those that came before. -/
def distinctNames : List Text → List Text
  | [] => []
  | name :: names => name :: (distinctNames names).filter (· != name)

/-- How many edits may lie between an unknown name and one that it may stand for: two fifths
    of its length, and one more. -/
def editThreshold (name : Text) : Nat :=
  name.length * 2 / 5 + 1

/-- The known names that an unknown one may stand for, the nearest first. -/
def suggestions (name : Text) (known : List Text) : Except NumeralTooLong (List Text) := do
  let near := (distinctNames known).filterMap fun other =>
    (editDistance (editThreshold name) name other).map (other, ·)
  let candidates ← near.mapM fun (other, distance) => do
    pure { name := other, distance, key := ← naturalKey other : Candidate }
  pure ((sortedBy Candidate.atMost candidates).map Candidate.name)

/-- Names in quotes as alternatives. -/
def alternatives (names : List Text) : Text :=
  let quoted : List Text := names.map fun name => '\'' :: (name ++ ['\''])
  match quoted with
  | [] => []
  | [only] => only
  | [first, second] => first ++ " or " ++ second
  | _ => Text.join ", " quoted.dropLast ++ ", or " ++ (quoted.getLast?.getD [])

/-- The question whether one of the suggested names was meant; at most five are offered. -/
def didYouMean (names : List Text) : Text :=
  if names.isEmpty then [] else " Did you mean " ++ alternatives (names.take 5) ++ "?"

end SchemaStitch
