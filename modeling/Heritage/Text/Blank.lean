/-!
# Blank characters

A character is blank when it has the property `White_Space` of the Unicode Character Database. The
module holds the class, and the removal of blanks from either end of a text:

* `trimStart_eq_self_iff`: nothing is removed exactly when the first character is not blank;
* `isBlank_of_isWhitespace`: the ASCII blanks of the core library are blank here too.

Texts are lists of characters, so that every rule about them is a recursion on the list.
-/

namespace Heritage.Text

/-- Whether `c` has the property `White_Space`. -/
def isBlank (c : Char) : Bool :=
  let n := c.toNat
  (0x09 ≤ n && n ≤ 0x0D) || n == 0x20 || n == 0x85 || n == 0xA0 || n == 0x1680 ||
    (0x2000 ≤ n && n ≤ 0x200A) || n == 0x2028 || n == 0x2029 || n == 0x202F || n == 0x205F ||
    n == 0x3000

/-- `text` without the blanks it begins with. -/
def trimStart (text : List Char) : List Char :=
  text.dropWhile isBlank

/-- `text` without the blanks it ends with. -/
def trimEnd (text : List Char) : List Char :=
  (text.reverse.dropWhile isBlank).reverse

/-- `text` without the blanks at both ends. -/
def trim (text : List Char) : List Char :=
  trimEnd (trimStart text)

theorem isBlank_of_isWhitespace {c : Char} (h : c.isWhitespace = true) : isBlank c = true := by
  simp only [Char.isWhitespace, Bool.or_eq_true, decide_eq_true_eq] at h
  rcases h with ((h | h) | h) | h <;> subst h <;> decide

theorem trimStart_eq_self_iff {text : List Char} :
    trimStart text = text ↔ ∀ c, text.head? = some c → isBlank c = false := by
  cases text with
  | nil => simp [trimStart]
  | cons c rest =>
    cases hc : isBlank c with
    | false => simp [trimStart, hc]
    | true =>
      have hLength : (rest.dropWhile isBlank).length ≤ rest.length :=
        (List.dropWhile_suffix isBlank).length_le
      constructor
      · intro hEq
        have := congrArg List.length hEq
        simp [trimStart, hc] at this
        omega
      · intro h
        simp [hc] at h

end Heritage.Text
