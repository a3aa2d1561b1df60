import SchemaStitch.Text

/-! # Binary numbers of 64 bits

    A number with a fraction or an exponent is rounded to the nearest number that 64 bits
    can hold: 53 binary digits and a limited exponent.  It is printed with the fewest
    decimal digits that are rounded to it again.

    All computations are exact, between natural numbers. -/

namespace SchemaStitch

/-- A binary number of 64 bits: `significand` times two to the power of `exponent`, an
    infinity, or what is not a number.  A finite number is kept in one way only: its
    significand has 53 binary digits, or fewer if its exponent is the least one, -1074. -/
inductive Binary64
  | finite (negative : Bool) (significand : Nat) (exponent : Int)
  | infinite (negative : Bool)
  | undefined
  deriving DecidableEq, Repr

namespace Binary64

/-! ## Quotients -/

/-- A quotient of natural numbers times a power of a base. -/
def timesPower (base : Nat) (quotient : Nat × Nat) : Int → Nat × Nat
  | .ofNat e => (quotient.1 * Nat.pow base e, quotient.2)
  | .negSucc e => (quotient.1, quotient.2 * Nat.pow base (e + 1))

/-- The nearest natural number to a quotient; the even one of two that are as near. -/
def nearest (quotient : Nat × Nat) : Nat :=
  let whole := quotient.1 / quotient.2
  let rest := 2 * (quotient.1 % quotient.2)
  if rest < quotient.2 || (rest = quotient.2 && whole % 2 = 0) then whole else whole + 1

/-- The largest power of two that a positive quotient reaches. -/
def binaryOrder (quotient : Nat × Nat) : Int :=
  let estimate : Int := (Nat.log2 quotient.1 : Int) - (Nat.log2 quotient.2 : Int)
  let remaining := timesPower 2 quotient (-estimate)
  if remaining.2 ≤ remaining.1 then estimate else estimate - 1

/-- The number of decimal digits of a natural number. -/
def digitCount (n : Nat) : Nat :=
  (Text.ofNat n).length

/-- How many digits of a positive quotient stand before the point; zero or less if it is
    less than one, and then that many zeros follow the point. -/
def decimalOrder (quotient : Nat × Nat) : Int :=
  if quotient.2 ≤ quotient.1 then digitCount (quotient.1 / quotient.2)
  else 1 - (digitCount (quotient.2 / quotient.1) : Int)

/-! ## Rounding -/

/-- The nearest binary number to a quotient. -/
def ofQuotient (negative : Bool) (quotient : Nat × Nat) : Binary64 :=
  if quotient.1 = 0 then .finite negative 0 (-1074)
  else
    let order := binaryOrder quotient
    let exponent := if order < -1022 then -1074 else order - 52
    let significand := nearest (timesPower 2 quotient (-exponent))
    let (significand, exponent) :=
      if significand = Nat.pow 2 53 then (Nat.pow 2 52, exponent + 1)
      else (significand, exponent)
    if exponent > 971 then .infinite negative else .finite negative significand exponent

/-- The nearest binary number to `mantissa` times ten to the power of `exponent`.  Numbers
    that are far too large or too small are not computed. -/
def ofDecimal (negative : Bool) (mantissa : Nat) (exponent : Int) : Binary64 :=
  let order := (digitCount mantissa : Int) + exponent
  if mantissa = 0 || order < -400 then .finite negative 0 (-1074)
  else if order > 400 then .infinite negative
  else ofQuotient negative (timesPower 10 (mantissa, 1) exponent)

/-! ## Questions -/

/-- Whether a number is finite. -/
def isFinite : Binary64 → Bool
  | .finite _ _ _ => true
  | _ => false

/-- The integer that a number is, if it is one. -/
def integer? : Binary64 → Option Int
  | .finite negative significand exponent =>
      let quotient := timesPower 2 (significand, 1) exponent
      if quotient.1 % quotient.2 = 0 then
        let magnitude : Int := (quotient.1 / quotient.2 : Nat)
        some (if negative then -magnitude else magnitude)
      else none
  | _ => none

/-! ## Printing -/

/-- The decimal number with `count` digits that is nearest to a positive number, given as a
    quotient too, among those that are rounded to it: its digits and its exponent. -/
def decimalOfLength? (number : Binary64) (quotient : Nat × Nat) (count : Nat) :
    Option (Nat × Int) :=
  let exponent := decimalOrder quotient - count
  let scaled := timesPower 10 quotient (-exponent)
  let below := scaled.1 / scaled.2
  let near := nearest scaled
  let far := if near = below then below + 1 else below
  if ofDecimal false near exponent = number then some (near, exponent)
  else if ofDecimal false far exponent = number then some (far, exponent)
  else none

/-- The shortest decimal number that is rounded to a positive number, given as a quotient
    too: 17 digits are always enough. -/
def shortestDecimal (number : Binary64) (quotient : Nat × Nat) : Nat × Int :=
  ((List.range 17).findSome? fun count => decimalOfLength? number quotient (count + 1)).getD
    (0, 0)

/-- The exponent behind a number, with its sign and at least two digits. -/
def printExponent (exponent : Int) : Text :=
  let digits := Text.ofNat exponent.natAbs
  'e' :: (if exponent < 0 then '-' else '+') :: (List.replicate (2 - digits.length) '0' ++ digits)

/-- Digits with a point behind as many of them as `point` says.  If the point is far away,
    it stands behind the first digit, and an exponent follows. -/
def printDigits (digits : Text) (point : Int) : Text :=
  if -4 < point && point ≤ 16 then
    match point with
    | .ofNat before =>
        if before = 0 then "0." ++ digits
        else if digits.length ≤ before then
          digits ++ List.replicate (before - digits.length) '0' ++ ".0"
        else digits.take before ++ "." ++ digits.drop before
    | .negSucc zeros => "0." ++ List.replicate (zeros + 1) '0' ++ digits
  else
    let fraction := digits.drop 1
    digits.take 1 ++ Text.enclose "." fraction "" ++ printExponent (point - 1)

/-- The absolute value of a finite number. -/
def printMagnitude (significand : Nat) (exponent : Int) : Text :=
  if significand = 0 then "0.0"
  else
    let (mantissa, power) :=
      shortestDecimal (.finite false significand exponent)
        (timesPower 2 (significand, 1) exponent)
    let digits := Text.ofNat mantissa
    printDigits (Text.dropEndWhile (fun c => c = '0') digits) (digits.length + power)

/-- A number in decimal digits. -/
def print : Binary64 → Text
  | .finite negative significand exponent =>
      let magnitude := printMagnitude significand exponent
      if negative then '-' :: magnitude else magnitude
  | .infinite negative => if negative then "-Infinity" else "Infinity"
  | .undefined => "NaN"

end Binary64

end SchemaStitch
