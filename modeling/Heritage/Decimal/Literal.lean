/-!
# Decimal literals

A literal stands for a sign, a natural number and a power of ten. The sign is kept apart from the
number, so that a zero can be negative. `Decimal.read?` accepts digits with an optional point and an
optional exponent; digits may be missing on one side of the point, but not on both.
-/

namespace Heritage

/-- The number `mantissa * 10 ^ exponent`, negated when `negative`. -/
structure Decimal where
  negative : Bool
  mantissa : Nat
  exponent : Int
  deriving DecidableEq, Repr

namespace Decimal

/-- The number that ASCII digits write, the first digit being the most significant one. -/
def ofDigits (digits : List Char) : Nat :=
  digits.foldl (fun n c => n * 10 + (c.toNat - '0'.toNat)) 0

/-- Splits off a sign; the flag tells a minus sign. -/
def readSign : List Char → Bool × List Char
  | '-' :: rest => (true, rest)
  | '+' :: rest => (false, rest)
  | text => (false, text)

/-- Reads the exponent that follows a mantissa: nothing, or the letter, an optional sign, and
digits. -/
def readExponent? : List Char → Option Int
  | [] => some 0
  | c :: rest =>
    if c = 'e' || c = 'E' then
      let (negative, digits) := readSign rest
      if digits.isEmpty || !digits.all Char.isDigit then none
      else some (if negative then -(ofDigits digits : Int) else ofDigits digits)
    else none

/-- Reads a whole text as a literal. -/
def read? (text : List Char) : Option Decimal :=
  let (negative, body) := readSign text
  let whole := body.takeWhile Char.isDigit
  let afterWhole := body.dropWhile Char.isDigit
  let (fraction, tail) :=
    match afterWhole with
    | '.' :: rest => (rest.takeWhile Char.isDigit, rest.dropWhile Char.isDigit)
    | rest => ([], rest)
  if whole.isEmpty && fraction.isEmpty then none
  else
    (readExponent? tail).map fun exponent =>
      ⟨negative, ofDigits (whole ++ fraction), exponent - fraction.length⟩

example : read? "-12.50e1".toList = some ⟨true, 1250, -1⟩ ∧
    read? "4.".toList = some ⟨false, 4, 0⟩ ∧
    read? ".".toList = none ∧ read? "1.2.3".toList = none := by decide

end Decimal

end Heritage
