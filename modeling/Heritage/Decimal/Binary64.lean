import Heritage.Decimal.Literal

/-!
# Decimal literals as binary64 numbers

A finite binary64 magnitude is a natural number below `2 ^ 53` times a power of two that is at least
`2 ^ (-1074)`. A literal is rounded to the nearest such number, and to the even one of two equally
near ones. All arithmetic is exact and on natural numbers.
-/

namespace Heritage

/-- The magnitude `mantissa * 2 ^ exponent`. -/
structure Binary64 where
  mantissa : Nat
  exponent : Int
  deriving DecidableEq, Repr

namespace Binary64

/-- The quotient `num / den` rounded to the nearest natural number, a half to the even one. -/
def roundDiv (num den : Nat) : Nat :=
  let quotient := num / den
  let rest := num % den
  if 2 * rest < den then quotient
  else if den < 2 * rest then quotient + 1
  else if quotient % 2 = 0 then quotient else quotient + 1

/-- Numerator and denominator of `num / den` divided by `2 ^ exponent`. -/
def unscale (num den : Nat) (exponent : Int) : Nat × Nat :=
  (num * Nat.pow 2 (-exponent).toNat, den * Nat.pow 2 exponent.toNat)

/-- The exponent of the largest power of two that is at most `num / den`. -/
def floorLog2 (num den : Nat) : Int :=
  let guess : Int := (num.log2 : Int) - den.log2
  let (scaledNum, scaledDen) := unscale num den guess
  if scaledDen ≤ scaledNum then guess else guess - 1

/-- The magnitude nearest to `num / den`, where neither is zero; nothing when that is too large. -/
def ofRatio? (num den : Nat) : Option Binary64 :=
  let exponent := max (-1074) (floorLog2 num den - 52)
  let (scaledNum, scaledDen) := unscale num den exponent
  let mantissa := roundDiv scaledNum scaledDen
  let result : Binary64 :=
    if mantissa = Nat.pow 2 53 then ⟨Nat.pow 2 52, exponent + 1⟩ else ⟨mantissa, exponent⟩
  if 971 < result.exponent then none else some result

/-- The magnitude nearest to that of a literal; nothing when it is too large. Exponents that decide
the answer alone are not expanded. -/
def ofDecimal? (d : Decimal) : Option Binary64 :=
  let size : Int := (Nat.toDigits 10 d.mantissa).length + d.exponent
  if d.mantissa = 0 || size < -400 then some ⟨0, -1074⟩
  else if 400 < size then none
  else ofRatio? (d.mantissa * Nat.pow 10 d.exponent.toNat) (Nat.pow 10 (-d.exponent).toNat)

end Binary64

end Heritage
