/-!
# Quoted texts in settings

Settings quote texts in double quotes, where a backslash begins an escape, or in single quotes,
where no character has a special meaning. Neither kind of text holds control characters other than
tabs. The readers begin behind the opening quote and yield what they read and what follows the
closing quote.
-/

namespace Heritage.Settings

/-- Whether a character may stand in a quoted text as it is. -/
def isPlain (c : Char) : Bool :=
  c = '\t' || (0x20 ≤ c.toNat && c.toNat ≠ 0x7F)

/-- The character that a backslash and a letter or sign stand for. -/
def shortEscape? (c : Char) : Option Char :=
  if c = 'b' then some '\x08'
  else if c = 't' then some '\t'
  else if c = 'n' then some '\n'
  else if c = 'f' then some '\x0c'
  else if c = 'r' then some '\r'
  else if c = '"' then some '"'
  else if c = '\\' then some '\\'
  else none

/-- The value of a hexadecimal digit. -/
def hexValue? (c : Char) : Option Nat :=
  if c.isDigit then some (c.toNat - '0'.toNat)
  else if 'a' ≤ c && c ≤ 'f' then some (c.toNat - 'a'.toNat + 10)
  else if 'A' ≤ c && c ≤ 'F' then some (c.toNat - 'A'.toNat + 10)
  else none

/-- The character whose code point hexadecimal digits write. -/
def hexChar? (digits : List Char) : Option Char :=
  match digits.mapM hexValue? with
  | none => none
  | some values =>
    let code := values.foldl (fun n d => n * 16 + d) 0
    if code.isValidChar then some (Char.ofNat code) else none

/-- What has been read with one more character in front, if there is one. -/
def withFirst (first : Option Char) (rest : Option (List Char × List Char)) :
    Option (List Char × List Char) :=
  match first, rest with
  | some c, some (text, after) => some (c :: text, after)
  | _, _ => none

/-- Reads a text in double quotes. -/
def readDoubleQuoted : List Char → Option (List Char × List Char)
  | [] => none
  | '"' :: after => some ([], after)
  | '\\' :: 'u' :: a :: b :: c :: d :: after =>
    withFirst (hexChar? [a, b, c, d]) (readDoubleQuoted after)
  | '\\' :: 'U' :: a :: b :: c :: d :: e :: f :: g :: h :: after =>
    withFirst (hexChar? [a, b, c, d, e, f, g, h]) (readDoubleQuoted after)
  | '\\' :: c :: after => withFirst (shortEscape? c) (readDoubleQuoted after)
  | c :: after =>
    withFirst (if isPlain c && c ≠ '\\' then some c else none) (readDoubleQuoted after)

/-- Reads a text in single quotes. -/
def readSingleQuoted : List Char → Option (List Char × List Char)
  | [] => none
  | c :: after =>
    if c = '\'' then some ([], after)
    else withFirst (if isPlain c then some c else none) (readSingleQuoted after)

example : readDoubleQuoted "a\\u00e9\\n\" b".toList = some ("aé\n".toList, " b".toList) ∧
    readDoubleQuoted "\\q\"".toList = none := by decide

end Heritage.Settings
