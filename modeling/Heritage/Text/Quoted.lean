import Heritage.Text.Visible

/-!
# Quoted texts

Messages and summaries show a text between double quotes. Inside, the quote and the backslash follow
a backslash; tab, line feed, carriage return and NUL have short forms; a character that a reader
could not see on its own is shown by its code point in hexadecimal; every other character stands for
itself.
-/

namespace Heritage.Text

/-- The written form of one character inside double quotes. -/
def escaped (c : Char) : List Char :=
  if c = '\x00' then ['\\', '0']
  else if c = '\t' then ['\\', 't']
  else if c = '\r' then ['\\', 'r']
  else if c = '\n' then ['\\', 'n']
  else if c = '\\' then ['\\', '\\']
  else if c = '"' then ['\\', '"']
  else if isHidden c then ['\\', 'u', '\x7b'] ++ Nat.toDigits 16 c.toNat ++ ['\x7d']
  else [c]

/-- `text` between double quotes, with the characters inside escaped. -/
def quoted (text : String) : String :=
  String.ofList ('"' :: text.toList.flatMap escaped ++ ['"'])

end Heritage.Text
