import PromptBlocks.Number.Binary64

/-!
Contract: decimal texts of binary numbers.

Owns:
- the shortest decimal that reads back as a number, the nearest of these to it;
- its text: positional from 1e-5 below 1e16, and else with an exponent.

Does not own: the reading of decimals.
-/

namespace PromptBlocks.Binary64

/-- A decimal: digits times a power of ten. -/
structure Decimal where
  digits : Nat
  exponent : Int
  deriving DecidableEq, Repr

/-- The same decimal without a zero as its last digit, where it has one. -/
def Decimal.dropZero (decimal : Decimal) : Decimal :=
  if decimal.digits % 10 == 0 then
    { digits := decimal.digits / 10, exponent := decimal.exponent + 1 }
  else decimal

/-- Quarters of the unit in the last place: the number itself, and the two ends of the interval of
reals that round to it. -/
structure Rounding where
  low : Nat
  middle : Nat
  high : Nat
  exponent : Int
  includesEnds : Bool

/-- The interval that rounds to a number above zero.  Below a power of two the spacing halves. -/
def rounding (number : Binary64) : Rounding :=
  let middle := 4 * number.significand
  let isPowerOfTwo := number.significand == Nat.pow 2 52 && leastExponent < number.exponent
  { low := if isPowerOfTwo then middle - 1 else middle - 2
    middle
    high := middle + 2
    exponent := number.exponent - 2
    includesEnds := number.significand % 2 == 0 }

/-- The decimal on the grid of a power of ten that is nearest to the number and reads back as it, if
there is one; an exact tie goes to the even digits. -/
def onGrid? (interval : Rounding) (power : Int) : Option Decimal :=
  let unit := Nat.pow 10 power.toNat * Nat.pow 2 (-interval.exponent).toNat
  let scale := Nat.pow 10 (-power).toNat * Nat.pow 2 interval.exponent.toNat
  let middle := interval.middle * scale
  let below := middle / unit
  let readsBack := fun digits =>
    let point := digits * unit
    if interval.includesEnds then interval.low * scale ≤ point && point ≤ interval.high * scale
    else interval.low * scale < point && point < interval.high * scale
  let distanceBelow := middle - below * unit
  let distanceAbove := (below + 1) * unit - middle
  let preferBelow := distanceBelow < distanceAbove ||
    (distanceBelow == distanceAbove && below % 2 == 0)
  match readsBack below, readsBack (below + 1) with
  | true, true => some { digits := if preferBelow then below else below + 1, exponent := power }
  | true, false => some { digits := below, exponent := power }
  | false, true => some { digits := below + 1, exponent := power }
  | false, false => none

/-- The exponent of ten of the leading digit of a number above zero. -/
def leadingPower (number : Binary64) : Int :=
  let binaryPower : Int := number.significand.log2 + number.exponent
  let guess := (binaryPower * 30103) / 100000
  let (numerator, denominator) := number.quotient
  let next := guess + 1
  if Nat.pow 10 next.toNat * denominator ≤ numerator * Nat.pow 10 (-next).toNat then next
  else guess

/-- Seventeen digits always read back. -/
def greatestDigitCount : Nat :=
  17

/-- The shortest decimal that reads back as a number above zero.  Its last digit can be zero only
when a single nine was rounded up to ten. -/
def shortest (number : Binary64) : Decimal :=
  let interval := number.rounding
  let leading := number.leadingPower
  let found := (List.range greatestDigitCount).findSome? fun count =>
    onGrid? interval (leading - (count : Nat))
  (found.getD { digits := number.significand, exponent := number.exponent }).dropZero

/-- The greatest number of digits before the point in positional form. -/
def positionalDigits : Int :=
  16

/-- Zeros after the point that positional form may start with stay below this count. -/
def positionalZeros : Int :=
  5

/-- The text of a decimal above zero. -/
def Decimal.text (decimal : Decimal) : List Char :=
  let digits := Nat.toDigits 10 decimal.digits
  let point : Int := digits.length + decimal.exponent
  if 0 ≤ decimal.exponent && point ≤ positionalDigits then
    digits ++ List.replicate decimal.exponent.toNat '0' ++ ['.', '0']
  else if 0 < point && point ≤ positionalDigits then
    digits.take point.toNat ++ '.' :: digits.drop point.toNat
  else if -positionalZeros < point && point ≤ 0 then
    '0' :: '.' :: List.replicate (-point).toNat '0' ++ digits
  else
    let mantissa :=
      match digits with
      | first :: second :: others => first :: '.' :: second :: others
      | short => short
    let power := point - 1
    let sign := if power < 0 then ['-'] else []
    mantissa ++ 'e' :: sign ++ Nat.toDigits 10 power.natAbs

/-- The text of a number: its shortest decimal, with at least one digit after the point in
positional form. -/
def text (number : Binary64) : String :=
  let sign := if number.isNegative then ['-'] else []
  let magnitude := if number.isZero then ['0', '.', '0'] else number.shortest.text
  String.ofList (sign ++ magnitude)

end PromptBlocks.Binary64
