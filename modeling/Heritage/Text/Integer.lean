/-!
# Decimal integers in a range

An integer is written as an optional sign and at least one ASCII digit. A minus sign belongs to the
form only where the range reaches below zero. Characters are read from the left and the first
problem decides, so `999x` is too large for a byte while `99x` has a bad digit.

* `IntegerRange.read_mem`: what is read lies in the range;
* `IntegerRange.read_toDigits`: a number of the range is read from its digits.
-/

namespace Heritage.Text

/-- The integers from `lowest` to `highest`, both included. -/
structure IntegerRange where
  lowest : Int
  highest : Int
  deriving DecidableEq, Repr

/-- Why a text is not an integer of a range. -/
inductive IntegerFault where
  | empty
  | invalidDigit
  | tooLarge
  | tooSmall
  deriving DecidableEq, Repr

/-- The diagnostic shown for a text that is not an integer of the range. -/
def IntegerFault.message : IntegerFault → String
  | .empty => "cannot parse integer from empty string"
  | .invalidDigit => "invalid digit found in string"
  | .tooLarge => "number too large to fit in target type"
  | .tooSmall => "number too small to fit in target type"

namespace IntegerRange

/-- The numbers of `bits` bits. -/
def unsigned (bits : Nat) : IntegerRange := ⟨0, Int.pow 2 bits - 1⟩

/-- The numbers of `bits` bits in two's complement. -/
def signed (bits : Nat) : IntegerRange := ⟨-Int.pow 2 (bits - 1), Int.pow 2 (bits - 1) - 1⟩

/-- The value of an ASCII digit. -/
def digitValue (c : Char) : Int := c.toNat - '0'.toNat

/-- Appends the digits of a text to the number `soFar`, away from zero on the side of `sign`. -/
def readDigits (range : IntegerRange) (sign : Int) : Int → List Char → Except IntegerFault Int
  | soFar, [] => .ok soFar
  | soFar, c :: rest =>
    if c.isDigit then
      let next := soFar * 10 + sign * digitValue c
      if range.highest < next then .error .tooLarge
      else if next < range.lowest then .error .tooSmall
      else readDigits range sign next rest
    else .error .invalidDigit

/-- Reads a text as an integer of the range. -/
def read (range : IntegerRange) : List Char → Except IntegerFault Int
  | [] => .error .empty
  | ['+'] => .error .invalidDigit
  | ['-'] => .error .invalidDigit
  | '+' :: digits => range.readDigits 1 0 digits
  | '-' :: digits =>
    if range.lowest < 0 then range.readDigits (-1) 0 digits else .error .invalidDigit
  | digits => range.readDigits 1 0 digits

/-- Appending digits to a number of the range yields a number of the range. -/
theorem readDigits_mem {range : IntegerRange} {sign soFar result : Int} {text : List Char}
    (hStart : range.lowest ≤ soFar ∧ soFar ≤ range.highest)
    (h : range.readDigits sign soFar text = .ok result) :
    range.lowest ≤ result ∧ result ≤ range.highest := by
  induction text generalizing soFar with
  | nil =>
    simp only [readDigits, Except.ok.injEq] at h
    exact h ▸ hStart
  | cons c rest ih =>
    simp only [readDigits] at h
    split at h
    · split at h
      · cases h
      · split at h
        · cases h
        · exact ih ⟨by omega, by omega⟩ h
    · cases h

/-- What is read lies in the range, provided the range contains zero. -/
theorem read_mem {range : IntegerRange} {text : List Char} {result : Int}
    (hZero : range.lowest ≤ 0 ∧ 0 ≤ range.highest) (h : range.read text = .ok result) :
    range.lowest ≤ result ∧ result ≤ range.highest := by
  unfold read at h
  split at h
  · cases h
  · cases h
  · cases h
  · exact readDigits_mem hZero h
  · split at h
    · exact readDigits_mem hZero h
    · cases h
  · exact readDigits_mem hZero h

theorem le_ofDigitChars (n : Nat) (digits : List Char) : n ≤ Nat.ofDigitChars 10 digits n := by
  induction digits generalizing n with
  | nil => simp
  | cons c rest ih =>
    rw [Nat.ofDigitChars_cons]
    exact Nat.le_trans (by omega) (ih _)

/-- Digits are read as the number that they write, as long as the range has it. -/
theorem readDigits_of_isDigit {range : IntegerRange} (hLow : range.lowest ≤ 0) {digits : List Char}
    (hDigits : ∀ c ∈ digits, c.isDigit = true) (n : Nat)
    (hHigh : (Nat.ofDigitChars 10 digits n : Int) ≤ range.highest) :
    range.readDigits 1 n digits = .ok (Nat.ofDigitChars 10 digits n : Int) := by
  induction digits generalizing n with
  | nil => rfl
  | cons c rest ih =>
    have hDigit := hDigits c List.mem_cons_self
    have hZero : '0'.toNat ≤ c.toNat := by
      simp only [Char.isDigit, Bool.and_eq_true, decide_eq_true_eq] at hDigit
      exact hDigit.1
    rw [Nat.ofDigitChars_cons] at hHigh ⊢
    have hNext : (n : Int) * 10 + 1 * digitValue c =
        ((10 * n + (c.toNat - '0'.toNat) : Nat) : Int) := by
      unfold digitValue
      omega
    have hBound := le_ofDigitChars (10 * n + (c.toNat - '0'.toNat)) rest
    unfold readDigits
    simp only [hDigit, if_true, hNext]
    rw [if_neg (by omega), if_neg (by omega)]
    exact ih (fun d hd => hDigits d (List.mem_cons_of_mem c hd)) _ hHigh

/-- A number is read from its decimal digits. -/
theorem read_toDigits {range : IntegerRange} (hLow : range.lowest ≤ 0) {n : Nat}
    (hHigh : (n : Int) ≤ range.highest) : range.read (Nat.toDigits 10 n) = .ok (n : Int) := by
  have hDigits : ∀ c ∈ Nat.toDigits 10 n, c.isDigit = true := fun c hc =>
    Nat.isDigit_of_mem_toDigits (by omega) (by omega) hc
  have hRead := readDigits_of_isDigit hLow hDigits 0 (by rwa [Nat.ofDigitChars_ten_toDigits])
  rw [Nat.ofDigitChars_ten_toDigits] at hRead
  have hSign : ∀ c rest, Nat.toDigits 10 n = c :: rest → c ≠ '+' ∧ c ≠ '-' := by
    intro c rest hChars
    have hDigit := hDigits c (by simp [hChars])
    constructor <;> rintro rfl <;> revert hDigit <;> decide
  unfold read
  split
  · exact absurd ‹_› Nat.toDigits_ne_nil
  · exact absurd rfl (hSign _ _ ‹_›).1
  · exact absurd rfl (hSign _ _ ‹_›).2
  · exact absurd rfl (hSign _ _ ‹_›).1
  · exact absurd rfl (hSign _ _ ‹_›).2
  · exact hRead

example : (unsigned 8).read "999x".toList = .error .tooLarge ∧
    (unsigned 8).read "99x".toList = .error .invalidDigit ∧
    (signed 8).read "-128".toList = .ok (-128) := ⟨rfl, rfl, rfl⟩

end IntegerRange

end Heritage.Text
