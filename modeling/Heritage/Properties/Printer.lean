import Heritage.Properties.Basic

/-!
# Written properties

Entries are written one on each line, with an equals sign between key and value. A backslash goes
before every character that would otherwise mean something to the reader, and a letter takes the
place of the four control characters that have one; so a line holds no line end of its own, begins
with no blank and is no comment.

* `unescape_letter`, `letter_not_mem`: what is written for a special character stands for it and
  ends no line.
-/

namespace Heritage.Properties

open Text

/-- Whether a character is written with a backslash. -/
def isSpecial (c : Char) : Bool :=
  c = '\\' || c = '#' || c = '!' || isSeparator c || isBlank c

/-- What is written behind the backslash for a special character. -/
def letter (c : Char) : Char :=
  if c = '\t' then 't'
  else if c = '\n' then 'n'
  else if c = '\r' then 'r'
  else if c = '\x0c' then 'f'
  else c

def escape (c : Char) : List Char :=
  if isSpecial c then ['\\', letter c] else [c]

def escaped (text : List Char) : List Char :=
  text.flatMap escape

/-- The line that an entry is written on. -/
def line (key value : String) : List Char :=
  escaped key.toList ++ '=' :: escaped value.toList

/-- The property text with a line for each of the entries. -/
def print (entries : List (String × String)) : String :=
  String.ofList (['\n'].intercalate (entries.map fun e => line e.1 e.2))

example : print [("a key", " \\#"), ("b", "x\n")] = "a\\ key=\\ \\\\\\#\nb=x\\n" := by decide

/-! ## Special characters -/

/-- The characters that a letter takes the place of. -/
def lettered : List Char := ['\t', '\n', '\r', '\x0c']

theorem mem_lettered {c : Char} :
    c ∈ lettered ↔ c = '\t' ∨ c = '\n' ∨ c = '\r' ∨ c = '\x0c' := by
  simp [lettered]

theorem letter_of_not_mem {c : Char} (h : c ∉ lettered) : letter c = c := by
  simp only [mem_lettered, not_or] at h
  obtain ⟨hTab, hFeed, hReturn, hForm⟩ := h
  simp only [letter, if_neg hTab, if_neg hFeed, if_neg hReturn, if_neg hForm]

theorem letter_not_mem (c : Char) : letter c ∉ lettered := by
  by_cases h : c ∈ lettered
  · rcases mem_lettered.mp h with rfl | rfl | rfl | rfl <;> decide
  · rwa [letter_of_not_mem h]

theorem letter_eq_backslash_iff {c : Char} : letter c = '\\' ↔ c = '\\' := by
  by_cases h : c ∈ lettered
  · rcases mem_lettered.mp h with rfl | rfl | rfl | rfl <;> decide
  · rw [letter_of_not_mem h]

theorem unescape_of_not_mem {c : Char} (h : c ∉ ['t', 'n', 'r', 'f']) : unescape c = c := by
  simp only [List.mem_cons, List.not_mem_nil, or_false, not_or] at h
  obtain ⟨hTab, hFeed, hReturn, hForm⟩ := h
  simp only [unescape, if_neg hTab, if_neg hFeed, if_neg hReturn, if_neg hForm]

theorem unescape_letter {c : Char} (h : isSpecial c = true) : unescape (letter c) = c := by
  by_cases hLettered : c ∈ lettered
  · rcases mem_lettered.mp hLettered with rfl | rfl | rfl | rfl <;> decide
  · rw [letter_of_not_mem hLettered]
    apply unescape_of_not_mem
    intro hMem
    simp only [List.mem_cons, List.not_mem_nil, or_false] at hMem
    rcases hMem with rfl | rfl | rfl | rfl <;> revert h <;> decide

end Heritage.Properties
