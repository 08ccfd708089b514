import Heritage.Decimal.Binary64

/-!
# The shortest decimal text of a binary64 number

Among the decimals that round to a given binary64 number, the shortest text shows one with the
fewest digits, and of those the one nearest to the number; a format decides which one it takes of
two that are equally near. For one digit, two digits and so on, only the two neighbours of the
number on the grid of that many digits need to be looked at: if any point of the grid lies in the
interval of numbers that round to the given one, so does one of the neighbours.
-/

namespace Heritage

/-- Which of two equally near decimals is taken. -/
inductive Tie where
  | toEven
  /-- The one further from zero. -/
  | up
  deriving DecidableEq, Repr

/-- The decimal `digits * 10 ^ exponent`. -/
structure Digits where
  digits : Nat
  exponent : Int
  deriving DecidableEq, Repr

namespace Digits

/-- The same decimal without trailing zeros among its digits. The first argument bounds their
number. -/
def trimZeros : Nat → Digits → Digits
  | 0, d => d
  | fuel + 1, d =>
    if d.digits ≠ 0 && d.digits % 10 = 0 then trimZeros fuel ⟨d.digits / 10, d.exponent + 1⟩
    else d

/-- The exponent of the leading digit. -/
def leading (d : Digits) : Int :=
  (Nat.toDigits 10 d.digits).length - 1 + d.exponent

/-- The text without an exponent, with at least `places` digits behind the point; no point without
them. -/
def positional (places : Nat) (d : Digits) : String :=
  let all := Nat.toDigits 10 d.digits ++ List.replicate d.exponent.toNat '0'
  let behind := (-d.exponent).toNat
  let padded := List.replicate (behind + 1 - all.length) '0' ++ all
  let whole := padded.take (padded.length - behind)
  let fraction := padded.drop (padded.length - behind)
  let shown := fraction ++ List.replicate (places - fraction.length) '0'
  String.ofList (if shown.isEmpty then whole else whole ++ '.' :: shown)

/-- The text with one digit before the point and a signed exponent behind it. -/
def scientific (d : Digits) : String :=
  let mantissa :=
    match Nat.toDigits 10 d.digits with
    | [] => []
    | [c] => [c]
    | c :: rest => c :: '.' :: rest
  let sign := if d.leading < 0 then "e-" else "e+"
  String.ofList mantissa ++ sign ++ toString d.leading.natAbs

end Digits

namespace Binary64

/-- Whether `num / den` rounds to the magnitude, whose own value in quarter units is `4 * mantissa`.
The ends of the interval belong to it when the mantissa is even; below a power of two the interval
is half as wide. -/
def accepts (x : Binary64) (num den : Nat) : Bool :=
  let below := if x.mantissa = Nat.pow 2 52 && -1074 < x.exponent then 1 else 2
  let low := (4 * x.mantissa - below) * den
  let high := (4 * x.mantissa + 2) * den
  if x.mantissa % 2 = 0 then low ≤ num && num ≤ high else low < num && num < high

/-- The neighbour of `x` on the grid of multiples of `10 ^ exponent` that rounds to `x`; of two such
neighbours the nearer one, and the one that `tie` says if both are equally near. -/
def onGrid? (x : Binary64) (tie : Tie) (exponent : Int) : Option Nat :=
  -- in units of `2 ^ (x.exponent - 2)`, a grid step is `stepNum / stepDen`
  let binary := x.exponent - 2
  let stepNum := Nat.pow 10 exponent.toNat * Nat.pow 2 (-binary).toNat
  let stepDen := Nat.pow 10 (-exponent).toNat * Nat.pow 2 binary.toNat
  let value := 4 * x.mantissa * stepDen
  let lower := value / stepNum
  let upper := lower + 1
  let lowerFits := x.accepts (lower * stepNum) stepDen
  let upperFits := x.accepts (upper * stepNum) stepDen
  let lowerGap := value - lower * stepNum
  let upperGap := upper * stepNum - value
  if lowerFits && upperFits then
    if lowerGap < upperGap then some lower
    else if upperGap < lowerGap then some upper
    else if tie = .toEven && lower % 2 = 0 then some lower else some upper
  else if lowerFits then some lower
  else if upperFits then some upper
  else none

/-- The exponent of the leading decimal digit of a magnitude that is not zero. -/
def floorLog10 (x : Binary64) : Int :=
  let num := x.mantissa * Nat.pow 2 x.exponent.toNat
  let den := Nat.pow 2 (-x.exponent).toNat
  if den ≤ num then (Nat.toDigits 10 (num / den)).length - 1
  else
    -- the quotient by `num` counts how often ten fits between the value and one
    let inverse := (den + num - 1) / num
    let size := (Nat.toDigits 10 inverse).length
    if inverse = Nat.pow 10 (size - 1) then -(size - 1 : Int) else -size

/-- The shortest decimal that rounds to `x`. -/
def shortest (x : Binary64) (tie : Tie) : Digits :=
  if x.mantissa = 0 then ⟨0, 0⟩
  else
    let top := x.floorLog10
    let hit := (List.range 17).findSome? fun (n : Nat) =>
      (x.onGrid? tie (top - n)).map fun d => Digits.trimZeros 20 ⟨d, top - n⟩
    hit.getD ⟨x.mantissa, 0⟩

end Binary64

namespace Decimal

/-- The text of a literal's binary64 number, its digits laid out by `layout`. -/
def floatText (tie : Tie) (layout : Digits → String) (d : Decimal) : String :=
  let sign := if d.negative then "-" else ""
  match Binary64.ofDecimal? d with
  | none => sign ++ "inf"
  | some x => sign ++ layout (x.shortest tie)

end Decimal

end Heritage
