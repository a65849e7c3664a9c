/-!
Contract: binary floating-point numbers of 64 bits, in exact arithmetic.

Owns:
- finite numbers as sign, significand and exponent;
- the number nearest to a quotient, a half going to the even neighbour;
- the scaling of whole numbers by powers of ten, in steps that round.

Does not own: infinities and other values that no finite result has.
-/

namespace PromptBlocks

/-- A finite number of 64 bits: the significand times two to the exponent.  The exponent is the least
one where the significand has fewer than 53 bits. -/
structure Binary64 where
  isNegative : Bool
  significand : Nat
  exponent : Int
  deriving DecidableEq, Repr

namespace Binary64

/-- The exponent of the least positive number. -/
def leastExponent : Int :=
  -1074

def greatestExponent : Int :=
  971

/-- The whole number nearest to a quotient; a half goes to the even neighbour. -/
def roundQuotient (numerator denominator : Nat) : Nat :=
  let below := numerator / denominator
  let double := 2 * (numerator % denominator)
  if double < denominator then below
  else if denominator < double then below + 1
  else if below % 2 == 0 then below else below + 1

/-- A quotient divided by a power of two, as a quotient. -/
def shiftDown (numerator denominator : Nat) (exponent : Int) : Nat × Nat :=
  if 0 ≤ exponent then (numerator, denominator * Nat.pow 2 exponent.toNat)
  else (numerator * Nat.pow 2 (-exponent).toNat, denominator)

/-- The exponent at which the quotient has a significand of 53 bits, but no less than the least. -/
def exponentOf (numerator denominator : Nat) : Int :=
  let guess : Int := (numerator.log2 : Int) - (denominator.log2 : Int) - 52
  let (scaled, unit) := shiftDown numerator denominator guess
  max leastExponent (if scaled / unit < Nat.pow 2 52 then guess - 1 else guess)

/-- The number nearest to a quotient with a positive denominator; none when that is beyond the
greatest number. -/
def ofQuotient? (isNegative : Bool) (numerator denominator : Nat) : Option Binary64 :=
  if numerator == 0 then some { isNegative, significand := 0, exponent := leastExponent }
  else
    let exponent := exponentOf numerator denominator
    let (scaled, unit) := shiftDown numerator denominator exponent
    let rounded := roundQuotient scaled unit
    let result : Binary64 :=
      if rounded == Nat.pow 2 53 then
        { isNegative, significand := Nat.pow 2 52, exponent := exponent + 1 }
      else { isNegative, significand := rounded, exponent }
    if result.exponent ≤ greatestExponent then some result else none

def quotient (number : Binary64) : Nat × Nat :=
  if 0 ≤ number.exponent then (number.significand * Nat.pow 2 number.exponent.toNat, 1)
  else (number.significand, Nat.pow 2 (-number.exponent).toNat)

/-- Zero, with a sign. -/
def zero (isNegative : Bool) : Binary64 :=
  { isNegative, significand := 0, exponent := leastExponent }

/-- The number is zero, with either sign. -/
def isZero (number : Binary64) : Bool :=
  number.significand == 0

/-- The number nearest to an exact fraction that a number of this width can be near to. -/
def ofRat (value : Rat) : Binary64 :=
  (ofQuotient? (value.num < 0) value.num.natAbs value.den).getD (zero false)

def powerOfTen? (exponent : Nat) : Option Binary64 :=
  ofQuotient? false (Nat.pow 10 exponent) 1

/-- The rounded product; none when it is too great. -/
def times? (left right : Binary64) : Option Binary64 :=
  let (numerator, denominator) := left.quotient
  let (otherNumerator, otherDenominator) := right.quotient
  ofQuotient? (left.isNegative != right.isNegative) (numerator * otherNumerator)
    (denominator * otherDenominator)

/-- The rounded quotient by a number that is not zero; none when it is too great. -/
def dividedBy? (left right : Binary64) : Option Binary64 :=
  let (numerator, denominator) := left.quotient
  let (otherNumerator, otherDenominator) := right.quotient
  ofQuotient? (left.isNegative != right.isNegative) (numerator * otherDenominator)
    (denominator * otherNumerator)

/-- The greatest power of ten that a single scaling step uses. -/
def greatestPower : Nat :=
  308

/-- The number times a power of ten, rounded; none when it is too great. -/
def scaleUp? (number : Binary64) (exponent : Nat) : Option Binary64 :=
  if number.isZero then some number
  else if greatestPower < exponent then none
  else (powerOfTen? exponent).bind number.times?

/-- The number divided by a power of ten: by the greatest power for as long as the exponent is
beyond it, each step rounded, and then by the rest. -/
def scaleDown? (number : Binary64) (exponent : Nat) : Option Binary64 :=
  if number.isZero then some number
  else if _isBeyond : greatestPower < exponent then do
    let power ← powerOfTen? greatestPower
    let smaller ← number.dividedBy? power
    smaller.scaleDown? (exponent - greatestPower)
  else (powerOfTen? exponent).bind number.dividedBy?
termination_by exponent
decreasing_by
  have : 0 < greatestPower := by decide
  omega

/-- A whole number times a power of ten, first rounded and then scaled. -/
def ofScaled? (isNegative : Bool) (whole : Nat) (exponent : Int) : Option Binary64 := do
  let number ← ofQuotient? isNegative whole 1
  if 0 ≤ exponent then number.scaleUp? exponent.toNat else number.scaleDown? (-exponent).toNat

end Binary64

end PromptBlocks
