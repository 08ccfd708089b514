import Heritage.Text.Blank
import Heritage.Text.Lines

/-!
# Logical lines

A property text is a sequence of entries, one on each logical line. A logical line is made of one or
more physical lines: each loses the blanks it begins with, and a line that ends in an odd number of
backslashes is continued by the next one, the last of those backslashes being dropped. Where no line
is being continued, blank lines and comments are skipped.

The number of backslashes is counted on what has been joined so far. A text that ends while a line
is being continued still yields that line.
-/

namespace Heritage.Properties

open Text

/-- Whether a line is continued by the next one: it ends in an odd number of backslashes. -/
def continues (line : List Char) : Bool :=
  (line.reverse.takeWhile (· = '\\')).length % 2 = 1

/-- Whether a line, without the blanks it begins with, is empty or a comment. -/
def isSkipped : List Char → Bool
  | [] => true
  | c :: _ => c = '#' || c = '!'

/-- The logical lines that physical lines make up, where `pending` is what has been joined of a line
that is being continued. -/
def gather (pending : Option (List Char)) : List (List Char) → List (List Char)
  | [] => pending.toList
  | physical :: rest =>
    let trimmed := trimStart physical
    if pending = none && isSkipped trimmed then gather none rest
    else
      let line := pending.getD [] ++ trimmed
      if continues line then gather (some line.dropLast) rest else line :: gather none rest

/-- The logical lines of a text. -/
def logicalLines (text : List Char) : List (List Char) :=
  gather none (lines text)

example : logicalLines "a\\\n  # b\n! c\n\\\n\nd\\\\\n".toList =
    ["a# b".toList, [], "d\\\\".toList] := by decide

end Heritage.Properties
