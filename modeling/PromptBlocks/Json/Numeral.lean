import PromptBlocks.Json.Value

/-!
Contract: the numerals of JSON texts.

Owns:
- the grammar of numerals;
- their values, among them the doubles of numerals that are not whole or do not fit 64 bits.

Does not own: where a numeral ends in a text.
-/

namespace PromptBlocks.Json

structure Numeral where
  isNegative : Bool
  whole : List Char
  /-- The digits behind the point, if there is one. -/
  fraction : Option (List Char)
  /-- The exponent of ten, if there is one. -/
  exponent : Option Int
  deriving DecidableEq, Repr

namespace Numeral

/-- The number that digits write, behind the digits of another. -/
def digitsFrom (start : Nat) (digits : List Char) : Nat :=
  digits.foldl (fun value digit => 10 * value + (digit.toNat - '0'.toNat)) start

/-- Digits of a whole part: no zero in front of another digit. -/
def isWholePart (digits : List Char) : Bool :=
  match digits with
  | [] => false
  | ['0'] => true
  | first :: _ => first != '0'

/-- An exponent: an optional sign and at least one digit. -/
def exponentOf? (text : List Char) : Option Int :=
  let (isNegative, digits) :=
    match text with
    | '-' :: rest => (true, rest)
    | '+' :: rest => (false, rest)
    | _ => (false, text)
  if digits.isEmpty || !digits.all Char.isDigit then none
  else
    let magnitude : Int := digitsFrom 0 digits
    some (if isNegative then -magnitude else magnitude)

/-- The exponent part of a numeral and nothing else, or nothing at all. -/
def exponentPart? (text : List Char) : Option (Option Int) :=
  match text with
  | [] => some none
  | mark :: rest => if mark == 'e' || mark == 'E' then (exponentOf? rest).map some else none

def ofText? (text : List Char) : Option Numeral :=
  let (isNegative, unsigned) :=
    match text with
    | '-' :: rest => (true, rest)
    | _ => (false, text)
  let whole := unsigned.takeWhile Char.isDigit
  let behindWhole := unsigned.dropWhile Char.isDigit
  if !isWholePart whole then none
  else
    match behindWhole with
    | '.' :: rest =>
      let fraction := rest.takeWhile Char.isDigit
      if fraction.isEmpty then none
      else
        (exponentPart? (rest.dropWhile Char.isDigit)).map fun exponent =>
          { isNegative, whole, fraction := some fraction, exponent }
    | _ =>
      (exponentPart? behindWhole).map fun exponent =>
        { isNegative, whole, fraction := none, exponent }

/-- The longest front of the digits whose number, behind that of earlier digits, fits 64 bits: the
number and how many digits are left over. -/
def significant (start : Nat) : List Char → Nat × Nat
  | [] => (start, 0)
  | digit :: later =>
    let next := digitsFrom start [digit]
    if next < Number.naturalBound then significant next later else (start, later.length + 1)

/-- The double of a numeral: the digits that fit 64 bits, scaled.  Digits of the whole part that do
not fit raise the exponent; those of the fraction are dropped. -/
def double? (numeral : Numeral) : Option Binary64 :=
  let (whole, wholeLeft) := significant 0 numeral.whole
  let fraction := numeral.fraction.getD []
  let (value, fractionLeft) := significant whole fraction
  let taken := fraction.length - fractionLeft
  let exponent : Int := (wholeLeft : Int) - (taken : Int) + numeral.exponent.getD 0
  Binary64.ofScaled? numeral.isNegative value exponent

/-- The value of a numeral; none when it is too great for a double.  A whole numeral that fits 64 bits
is a whole number, save that a negative zero is a double. -/
def value? (numeral : Numeral) : Option Number :=
  let whole := digitsFrom 0 numeral.whole
  let isWhole := numeral.fraction.isNone && numeral.exponent.isNone
  if isWhole && !numeral.isNegative && whole < Number.naturalBound then some (.natural whole)
  else if isWhole && numeral.isNegative && 0 < whole && whole ≤ Number.negativeBound then
    some (.negative whole)
  else numeral.double?.map .double

end Numeral

end PromptBlocks.Json
