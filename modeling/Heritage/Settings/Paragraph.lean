import Heritage.Settings.Quoted

/-!
# Quoted texts over several lines

Between three quotes on either side a text may go on over several lines. The end of the line behind
the opening quotes does not count, and every other end of a line counts as one line feed. One or two
quotes may stand anywhere in such a text, also directly before the closing ones. Between double
quotes, a backslash at the end of a line joins it with the next: the blanks and the ends of lines
behind it do not count.

The readers begin behind the opening quotes and yield what they read and what follows the closing
quotes.
-/

namespace Heritage.Settings

/-- Whether a character is blank within a line. -/
def isInlineSpace (c : Char) : Bool :=
  c = ' ' || c = '\t'

namespace Paragraph

/-- Whether nothing but blanks stand before the end of a line. -/
def isLineEnd (text : List Char) : Bool :=
  match text.dropWhile isInlineSpace with
  | '\n' :: _ => true
  | '\r' :: '\n' :: _ => true
  | _ => false

/-- The text without the end of a line that it begins with. -/
def skipLineEnd : List Char → List Char
  | '\n' :: rest => rest
  | '\r' :: '\n' :: rest => rest
  | text => text

/-- What closing quotes leave, where up to two more quotes behind them belong to the text. -/
def close (quote : Char) (rest : List Char) : List Char × List Char :=
  let more := (rest.take 2).takeWhile (· = quote)
  (more, rest.drop more.length)

/-- Whether a character may stand in a text over several lines as it is. -/
def isPlainOrLineFeed (c : Char) : Bool :=
  c = '\n' || isPlain c

/-- Reads on in a text between double quotes, where `joining` tells that lines are being joined. -/
def readDoubleFrom (joining : Bool) : List Char → Option (List Char × List Char)
  | [] => none
  | '"' :: '"' :: '"' :: rest => some (close '"' rest)
  | '\\' :: 'u' :: a :: b :: c :: d :: rest =>
    withFirst (hexChar? [a, b, c, d]) (readDoubleFrom false rest)
  | '\\' :: 'U' :: a :: b :: c :: d :: e :: f :: g :: h :: rest =>
    withFirst (hexChar? [a, b, c, d, e, f, g, h]) (readDoubleFrom false rest)
  | '\\' :: c :: rest =>
    if isLineEnd (c :: rest) then readDoubleFrom true (c :: rest)
    else withFirst (shortEscape? c) (readDoubleFrom false rest)
  | '\r' :: '\n' :: rest =>
    if joining then readDoubleFrom true rest else withFirst (some '\n') (readDoubleFrom false rest)
  | c :: rest =>
    if joining && (c = '\n' || isInlineSpace c) then readDoubleFrom true rest
    else
      withFirst (if isPlainOrLineFeed c && c ≠ '\\' then some c else none)
        (readDoubleFrom false rest)

/-- Reads on in a text between single quotes. -/
def readSingleFrom : List Char → Option (List Char × List Char)
  | [] => none
  | '\'' :: '\'' :: '\'' :: rest => some (close '\'' rest)
  | '\r' :: '\n' :: rest => withFirst (some '\n') (readSingleFrom rest)
  | c :: rest => withFirst (if isPlainOrLineFeed c then some c else none) (readSingleFrom rest)

/-- Reads a text in three double quotes. -/
def readDouble (text : List Char) : Option (List Char × List Char) :=
  readDoubleFrom false (skipLineEnd text)

/-- Reads a text in three single quotes. -/
def readSingle (text : List Char) : Option (List Char × List Char) :=
  readSingleFrom (skipLineEnd text)

example : readDouble "\n\"a\\ \r\n\n \tb\r\n\"\"\"\"\" ".toList =
    some ("\"ab\n\"\"".toList, [' ']) := by decide

end Paragraph

end Heritage.Settings
