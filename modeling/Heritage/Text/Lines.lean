/-!
# Physical lines

A text is cut at its line feeds. A carriage return directly before a line feed belongs to the line
end; one at the very end of the text, which no line feed follows, belongs to the line. A text that
ends in a line feed has no further, empty line behind it.
-/

namespace Heritage.Text

/-- `line` without the one carriage return that it may end in. -/
def dropReturn (line : List Char) : List Char :=
  if line.getLast? = some '\r' then line.dropLast else line

/-- The lines of a text whose pieces between line feeds are `pieces`: every piece but the last was
ended by a line feed, and the last counts only if it holds anything. -/
def linesOfPieces : List (List Char) → List (List Char)
  | [] => []
  | [last] => if last.isEmpty then [] else [last]
  | piece :: next :: rest => dropReturn piece :: linesOfPieces (next :: rest)

/-- The physical lines of `text`, without their line ends. -/
def lines (text : List Char) : List (List Char) :=
  linesOfPieces (text.splitOn '\n')

example : lines "a\r\nb\r\r\n\nc\r".toList =
    ["a".toList, "b\r".toList, [], "c\r".toList] := by decide

end Heritage.Text
