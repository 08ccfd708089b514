import Heritage.Text.Blank

/-!
# Entries

A logical line holds a key, a separator and a value. The key ends at the first colon, equals sign or
blank that no backslash stands before; the separator is made of blanks with at most one colon or
equals sign among them; the value is the rest. In keys and values a backslash stands for the
character behind it, where four letters stand for control characters. The value loses the blanks
that it ends with, also those that were written with a backslash. A line without a key is no entry.
-/

namespace Heritage.Properties

open Text

/-- What a backslash and `c` stand for. -/
def unescape (c : Char) : Char :=
  if c = 't' then '\t'
  else if c = 'n' then '\n'
  else if c = 'r' then '\r'
  else if c = 'f' then '\x0c'
  else c

/-- A text with every backslash and the character behind it replaced by what they stand for. A
backslash at the very end stands for nothing. -/
def unescaped : List Char → List Char
  | [] => []
  | ['\\'] => []
  | '\\' :: c :: rest => unescape c :: unescaped rest
  | c :: rest => c :: unescaped rest

/-- Whether `c` can stand between a key and its value, apart from blanks. -/
def isSeparator (c : Char) : Bool :=
  c = ':' || c = '='

/-- What follows the separator that a blank began. -/
def afterBlank (text : List Char) : List Char :=
  match text.dropWhile isBlank with
  | [] => []
  | c :: rest => if isSeparator c then rest.dropWhile isBlank else c :: rest

/-- The key of a logical line, with its backslashes resolved, and what follows the separator. -/
def splitKey : List Char → List Char × List Char
  | [] => ([], [])
  | ['\\'] => ([], [])
  | '\\' :: c :: rest =>
    let (key, value) := splitKey rest
    (unescape c :: key, value)
  | c :: rest =>
    if isSeparator c then ([], rest.dropWhile isBlank)
    else if isBlank c then ([], afterBlank rest)
    else
      let (key, value) := splitKey rest
      (c :: key, value)

/-- The key and the value of a logical line; nothing when it has no key. -/
def assignment? (line : List Char) : Option (String × String) :=
  let (key, value) := splitKey line
  if key.isEmpty then none
  else some (String.ofList key, String.ofList (trimEnd (unescaped value)))

example : assignment? "a\\:b  =  = x\\n ".toList = some ("a:b", "= x") ∧
    assignment? ": x".toList = none ∧ assignment? "\\ ".toList = some (" ", "") := by decide

end Heritage.Properties
