import Heritage.Settings.Fault
import Heritage.Settings.Quoted
import Heritage.Text.Blank
import Heritage.Text.Integer
import Heritage.Table

/-!
# Settings in the environment

A variable of the environment sets a field when its name is a common start and the key of the field,
in letters of any case; blanks around the name or around the key do not count. Its text is read as a
value: a truth value, a number, a quoted text or character, a sequence or a table; a text that is
none of these, or that goes on behind one, is taken as it is.
-/

namespace Heritage.Settings

/-- An environment: variables with their texts, in the order in which they were first set. -/
abbrev Environment := Table String String

namespace Environment

/-! ## Values of variables -/

/-- What a reader of values has read, and what follows. -/
abbrev Reading (α : Type) := Option (α × List Char)

/-- Whether a character is blank between values. -/
def isSpace (c : Char) : Bool :=
  c = ' ' || c = '\t' || c = '\n' || c = '\x0c' || c = '\r'

/-- Whether a character ends a value that is not quoted. -/
def isDelimiter (c : Char) : Bool :=
  c = ',' || c = '\x7b' || c = '\x7d' || c = '[' || c = ']'

/-- Whether a character may stand in a key that is not quoted. -/
def isKeyChar (c : Char) : Bool :=
  c.isAlphanum || c = '_' || c = '-'

/-- The value of a text that is not quoted: a float if it has a point, else a whole number with or
without a sign, else a text. -/
def bareValue (text : List Char) : Value :=
  match (if '.' ∈ text then Decimal.read? text else none) with
  | some d => .ofFloat d
  | none =>
    match (Text.IntegerRange.unsigned 64).read text with
    | .ok n => .unsigned n.toNat
    | .error _ =>
      match (Text.IntegerRange.signed 64).read text with
      | .ok n => .signed n
      | .error _ => .text (String.ofList text)

/-- The longest start of a text whose encoding takes at most `size` bytes. -/
def takeBytes (size : Nat) : List Char → List Char
  | [] => []
  | c :: rest => if c.utf8Size ≤ size then c :: takeBytes (size - c.utf8Size) rest else []

/-- Reads a text in double quotes. Of the characters before the first escape, only so many bytes are
kept as there are characters, which leaves out nothing as long as those are ASCII. -/
def readQuoted (text : List Char) : Reading String :=
  (readDoubleQuoted text).map fun r =>
    let plain := text.takeWhile fun c => c ≠ '\\' && c ≠ '"'
    let kept :=
      if (text.drop plain.length).head? = some '\\' then
        takeBytes plain.length plain ++ r.1.drop plain.length
      else r.1
    (String.ofList kept, r.2)

example : readQuoted "éab\\n\" x".toList = some ("éa\n", " x".toList) ∧
    readQuoted "éab\" x".toList = some ("éab", " x".toList) := by decide

/-- Reads a key of a table and the equals sign behind it. -/
def readKey (text : List Char) : Reading Unit :=
  let start := text.dropWhile isSpace
  let key : Reading Unit :=
    match start with
    | '"' :: rest => (readDoubleQuoted rest).map fun r => ((), r.2)
    | _ =>
      if (start.takeWhile isKeyChar).isEmpty then none else some ((), start.dropWhile isKeyChar)
  match key with
  | none => none
  | some (_, after) =>
    match after.dropWhile isSpace with
    | '=' :: rest => some ((), rest)
    | _ => none

mutual

/-- Reads a value and the blanks around it. The first argument bounds how deep values nest. -/
def readValue (fuel : Nat) (text : List Char) : Reading Value :=
  match fuel with
  | 0 => none
  | fuel + 1 =>
    let value : Reading Value :=
      match text.dropWhile isSpace with
      | 't' :: 'r' :: 'u' :: 'e' :: rest => some (.boolean true, rest)
      | 'f' :: 'a' :: 'l' :: 's' :: 'e' :: rest => some (.boolean false, rest)
      | '\x7b' :: rest => (readItems fuel true '\x7d' rest).map fun after => (.table, after)
      | '[' :: rest => (readItems fuel false ']' rest).map fun after => (.sequence, after)
      | '"' :: rest => (readQuoted rest).map fun r => (.text r.1, r.2)
      | '\'' :: c :: '\'' :: rest => some (.text (String.ofList [c]), rest)
      | '\'' :: _ => none
      | rest =>
        let bare := rest.takeWhile (!isDelimiter ·)
        some (bareValue (Text.trim bare), rest.dropWhile (!isDelimiter ·))
    value.map fun r => (r.1, r.2.dropWhile isSpace)

/-- Reads values up to the sign `close`, with commas between them and perhaps behind the last; each
value has a key before it when `keyed` says so. -/
def readItems (fuel : Nat) (keyed : Bool) (close : Char) (text : List Char) : Option (List Char) :=
  match fuel with
  | 0 => none
  | fuel + 1 =>
    if text.head? = some close then some text.tail
    else
      let start : Reading Unit := if keyed then readKey text else some ((), text)
      match start.bind fun r => readValue fuel r.2 with
      | none => none
      | some (_, ',' :: rest) => readItems fuel keyed close rest
      | some (_, after) => if after.head? = some close then some after.tail else none

end

/-- The value that the text of a variable stands for. -/
def valueOf (text : String) : Value :=
  match readValue (2 * text.length + 2) text.toList with
  | some (value, []) => value
  | _ => .text text

/-! ## Names of variables -/

/-- The characters that the names of all variables for settings begin with. -/
def start : List Char := "ANCESTRY_CONFIG_".toList

/-- The key behind the common start of a name, in small letters and in parts with dots between them.
No part may be empty. -/
def keyOf? (name : String) : Option (List (List Char)) :=
  let small := (Text.trim name.toList).map Char.toLower
  if start.map Char.toLower <+: small then
    let parts := (Text.trim (small.drop start.length)).splitOn '.'
    if parts.any List.isEmpty then none else some parts
  else none

/-- What a variable says about a field. A name that goes on behind the key, after a dot, makes the
field a table. -/
def valueFor? (field : Field) (binding : String × String) : Option Value :=
  match keyOf? binding.1 with
  | none | some [] => none
  | some (first :: rest) =>
    if first ≠ field.key.toList then none
    else if rest.isEmpty then some (valueOf binding.2)
    else some .table

/-- The value that an environment holds for a field: what the last variable that names it says. -/
def value? (env : Environment) (field : Field) : Option Value :=
  (env.entries.filterMap (valueFor? field)).getLast?

end Environment

end Heritage.Settings
