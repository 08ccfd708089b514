import Heritage.Settings.Fault
import Heritage.Settings.Moment
import Heritage.Settings.Paragraph
import Heritage.Table
import Heritage.Text.Integer

/-!
# The settings file

A settings file is a sequence of lines, each of which is blank, a comment, the header of a table, or
a key, an equals sign and a value. Keys are bare or quoted, with dots between the parts of a key;
values are quoted texts on one line or on several, whole numbers, floats, truth values, dates and
times, arrays and inline tables. A key must not be given twice, and there is a limit to how many
parts a key has and how deep values nest. A file that breaks a rule holds nothing at all.

Of values that are no texts, only what messages say about them is kept; a date or a time counts as a
table.
-/

namespace Heritage.Settings

namespace File

/-- What a reader has read, and what follows. -/
abbrev Reading (α : Type) := Option (α × List Char)

/-- A text without the blanks that it begins with, within its first line. -/
def skipSpace (text : List Char) : List Char :=
  text.dropWhile isInlineSpace

/-- A text without the comment that it begins with. Comments hold no control characters but tabs. -/
def skipComment : List Char → List Char
  | '#' :: rest => rest.dropWhile isPlain
  | text => text

/-- What follows the end of a line; nothing if the line does not end here. -/
def lineEnd? : List Char → Option (List Char)
  | [] => some []
  | '\n' :: rest => some rest
  | '\r' :: '\n' :: rest => some rest
  | _ => none

/-- A text without the blanks, comments and ends of lines that it begins with. The first argument
bounds the number of lines. -/
def skipLines : Nat → List Char → List Char
  | 0, text => text
  | fuel + 1, text =>
    let rest := skipComment (skipSpace text)
    match rest with
    | '\n' :: after => skipLines fuel after
    | '\r' :: '\n' :: after => skipLines fuel after
    | _ => rest

/-- How deep values may nest in each other, and how many parts a key may have. -/
def depthLimit : Nat := 79

/-! ## Keys -/

/-- Whether a character may stand in a bare key. -/
def isKeyChar (c : Char) : Bool :=
  c.isAlphanum || c = '_' || c = '-'

/-- Reads one part of a key. -/
def readKeyPart (text : List Char) : Reading String :=
  match text with
  | '"' :: rest => (readDoubleQuoted rest).map fun r => (String.ofList r.1, r.2)
  | '\'' :: rest => (readSingleQuoted rest).map fun r => (String.ofList r.1, r.2)
  | _ =>
    let bare := text.takeWhile isKeyChar
    if bare.isEmpty then none else some (String.ofList bare, text.dropWhile isKeyChar)

/-- Reads at most `count` parts of a key, with dots between them, and the blanks around it. -/
def readKeyParts (count : Nat) (text : List Char) : Reading (List String) :=
  match count with
  | 0 => none
  | count + 1 =>
    match readKeyPart (skipSpace text) with
    | none => none
    | some (part, after) =>
      match skipSpace after with
      | '.' :: rest => (readKeyParts count rest).map fun r => (part :: r.1, r.2)
      | rest => some ([part], rest)

/-- Reads a key. -/
def readKey (text : List Char) : Reading (List String) :=
  readKeyParts depthLimit text

/-! ## Values -/

/-- Digits with single underscores between them, without the underscores. -/
def digits? (isDigit : Char → Bool) : List Char → Option (List Char)
  | [] => none
  | [c] => if isDigit c then some [c] else none
  | c :: '_' :: rest => if isDigit c then (digits? isDigit rest).map (c :: ·) else none
  | c :: rest => if isDigit c then (digits? isDigit rest).map (c :: ·) else none

/-- The digits of a whole number, which has no zero in front. -/
def wholeDigits? (text : List Char) : Option (List Char) :=
  match text with
  | '0' :: _ :: _ => none
  | _ => digits? Char.isDigit text

/-- The number that digits to a base write. -/
def ofDigits (base : Nat) (digits : List Char) : Nat :=
  digits.foldl (fun n c => n * base + (hexValue? c).getD 0) 0

/-- A whole number, if it fits 64 bits with a sign. -/
def signed? (n : Int) : Option Value :=
  if -Int.pow 2 63 ≤ n && n < Int.pow 2 63 then some (.signed n) else none

/-- Reads a whole number: decimal with an optional sign, or hexadecimal, octal or binary. -/
def wholeValue? : List Char → Option Value
  | '0' :: 'x' :: rest =>
    (digits? (fun c => (hexValue? c).isSome) rest).bind fun ds => signed? (ofDigits 16 ds)
  | '0' :: 'o' :: rest =>
    (digits? (fun c => '0' ≤ c && c ≤ '7') rest).bind fun ds => signed? (ofDigits 8 ds)
  | '0' :: 'b' :: rest =>
    (digits? (fun c => c = '0' || c = '1') rest).bind fun ds => signed? (ofDigits 2 ds)
  | '-' :: rest => (wholeDigits? rest).bind fun ds => signed? (-(ofDigits 10 ds))
  | '+' :: rest => (wholeDigits? rest).bind fun ds => signed? (ofDigits 10 ds)
  | text => (wholeDigits? text).bind fun ds => signed? (ofDigits 10 ds)

/-- Reads the exponent of a float behind its letter. -/
def exponent? (text : List Char) : Option Int :=
  let (negative, body) := Decimal.readSign text
  (digits? Char.isDigit body).map fun ds =>
    if negative then -(ofDigits 10 ds : Int) else ofDigits 10 ds

/-- Reads a float: a whole number with a fraction, an exponent or both, or one of the special
values. A number that rounds to positive infinity breaks the rules; to negative infinity, it does
not. -/
def floatValue? (text : List Char) : Option Value :=
  let (negative, body) := Decimal.readSign text
  if body = ['i', 'n', 'f'] then some (.float (if negative then "-inf" else "inf"))
  else if body = ['n', 'a', 'n'] then some (.float "NaN")
  else
    let isMark (c : Char) : Bool := c = 'e' || c = 'E'
    let mantissa := body.takeWhile (!isMark ·)
    let exponent? : Option Int :=
      match body.dropWhile (!isMark ·) with
      | [] => some 0
      | _ :: rest => exponent? rest
    let parts? : Option (List Char × List Char) :=
      match mantissa.splitOn '.' with
      | [whole] =>
        if mantissa = body then none else (wholeDigits? whole).map fun ds => (ds, [])
      | [whole, fraction] =>
        match wholeDigits? whole, digits? Char.isDigit fraction with
        | some w, some f => some (w, f)
        | _, _ => none
      | _ => none
    match parts?, exponent? with
    | some (whole, fraction), some exponent =>
      let d : Decimal :=
        ⟨negative, Decimal.ofDigits (whole ++ fraction), exponent - fraction.length⟩
      if negative || (Binary64.ofDecimal? d).isSome then some (.ofFloat d) else none
    | _, _ => none

/-- Whether a character may stand in a number or a truth value. -/
def isWordChar (c : Char) : Bool :=
  c.isAlphanum || c = '_' || c = '-' || c = '+' || c = '.'

/-- The value that a word stands for. -/
def wordValue? (word : List Char) : Option Value :=
  if word = ['t', 'r', 'u', 'e'] then some (.boolean true)
  else if word = ['f', 'a', 'l', 's', 'e'] then some (.boolean false)
  else (wholeValue? word).or (floatValue? word)

/-- Whether one key leads to the other or beyond it. -/
def clash (left right : List String) : Bool :=
  left.isPrefixOf right || right.isPrefixOf left

/-- Reads a value that holds no other. -/
def readScalar (text : List Char) : Reading Value :=
  let ofText (r : List Char × List Char) : Value × List Char := (.text (String.ofList r.1), r.2)
  match text with
  | '"' :: '"' :: '"' :: rest => (Paragraph.readDouble rest).map ofText
  | '"' :: rest => (readDoubleQuoted rest).map ofText
  | '\'' :: '\'' :: '\'' :: rest => (Paragraph.readSingle rest).map ofText
  | '\'' :: rest => (readSingleQuoted rest).map ofText
  | _ =>
    match Moment.after? text with
    | some after => some (.table, after)
    | none =>
      (wordValue? (text.takeWhile isWordChar)).map fun v => (v, text.dropWhile isWordChar)

mutual

/-- Reads a value that holds values at most `depth` deep. The first argument bounds the number of
values. -/
def readValue (fuel depth : Nat) (text : List Char) : Reading Value :=
  match fuel with
  | 0 => none
  | fuel + 1 =>
    match text with
    | '[' :: rest =>
      match depth with
      | 0 => none
      | depth + 1 => (readArray fuel depth rest).map fun after => (.sequence, after)
    | '\x7b' :: rest =>
      match depth, skipSpace rest with
      | 0, _ => none
      | _ + 1, '\x7d' :: after => some (.table, after)
      | depth + 1, start => (readPairs fuel depth [] start).map fun after => (.table, after)
    | _ => readScalar text

/-- Reads the elements of an array and its end; they may stand on several lines. -/
def readArray (fuel depth : Nat) (text : List Char) : Option (List Char) :=
  match fuel with
  | 0 => none
  | fuel + 1 =>
    match skipLines text.length text with
    | ']' :: after => some after
    | start =>
      match readValue fuel depth start with
      | none => none
      | some (_, after) =>
        match skipLines after.length after with
        | ',' :: rest => readArray fuel depth rest
        | ']' :: rest => some rest
        | _ => none

/-- Reads the keys and values of an inline table and its end, where `seen` holds the keys before. -/
def readPairs (fuel depth : Nat) (seen : List (List String)) (text : List Char) :
    Option (List Char) :=
  match fuel with
  | 0 => none
  | fuel + 1 =>
    match readKey text with
    | some (key, '=' :: rest) =>
      if seen.any (clash key) then none
      else
        match readValue fuel depth (skipSpace rest) with
        | none => none
        | some (_, after) =>
          match skipSpace after with
          | ',' :: more => readPairs fuel depth (key :: seen) more
          | '\x7d' :: more => some more
          | _ => none
    | _ => none

end

/-! ## Lines -/

/-- What a file has at a key. -/
inductive Item where
  | value (v : Value)
  /-- A table that exists because of a header below it. -/
  | implied
  /-- A table with a header of its own. -/
  | headed
  /-- A table made by a key with dots. -/
  | dotted
  /-- A sequence of tables with a header each. -/
  | tables
  deriving DecidableEq, Repr

/-- The items of a file by their full keys, and the table that the next lines belong to. -/
structure Document where
  items : Table (List String) Item
  current : List String

/-- The document of a file without lines. -/
def Document.empty : Document := ⟨.empty, []⟩

/-- Makes sure that there are tables on the way from `above` along `parts`, where `make` is written
to a key that has no item and `isOpen` tells which items may be passed. -/
def openTables (isOpen : Item → Bool) (make : Item) :
    List String → List String → Table (List String) Item → Option (Table (List String) Item)
  | _, [], items => some items
  | above, part :: rest, items =>
    let key := above ++ [part]
    match items.get? key with
    | none => openTables isOpen make key rest (items.insert key make)
    | some item => if isOpen item then openTables isOpen make key rest items else none

/-- Whether a key with dots may lead through an item. -/
def Item.isExtensible : Item → Bool
  | .value _ | .headed => false
  | _ => true

/-- The document with a value at a key of the current table. The table that holds the value must be
the current one or one that keys with dots have made. -/
def Document.addValue (d : Document) (key : List String) (v : Value) : Option Document :=
  match openTables Item.isExtensible .dotted d.current key.dropLast d.items with
  | none => none
  | some items =>
    let holder := items.get? (d.current ++ key.dropLast)
    if key.dropLast ≠ [] && holder ≠ some .dotted then none
    else
      match items.get? (d.current ++ key) with
      | some _ => none
      | none => some { d with items := items.insert (d.current ++ key) (.value v) }

/-- Whether the header of another table may lead through an item. -/
def Item.isPassable : Item → Bool
  | .value _ => false
  | _ => true

/-- The document behind the header of a table. -/
def Document.addHeader (d : Document) (key : List String) : Option Document :=
  match openTables Item.isPassable .implied [] key.dropLast d.items with
  | none => none
  | some items =>
    match items.get? key with
    | none | some .implied => some ⟨items.insert key .headed, key⟩
    | some _ => none

/-- The document behind a header that begins one more table of a sequence. -/
def Document.addElement (d : Document) (key : List String) : Option Document :=
  match openTables Item.isPassable .implied [] key.dropLast d.items with
  | none => none
  | some items =>
    match items.get? key with
    | none => some ⟨items.insert key .tables, key⟩
    | some .tables =>
      -- the keys of the element before do not count for the new one
      some ⟨⟨items.entries.filter fun e => !(key.isPrefixOf e.1 && e.1 ≠ key)⟩, key⟩
    | some _ => none

/-- Reads the content of one line, without its end. -/
def readLine (d : Document) (text : List Char) : Reading Document :=
  match text with
  | '[' :: '[' :: rest =>
    match readKey rest with
    | some (key, ']' :: ']' :: after) => (d.addElement key).map (·, after)
    | _ => none
  | '[' :: rest =>
    match readKey rest with
    | some (key, ']' :: after) => (d.addHeader key).map (·, after)
    | _ => none
  | _ =>
    match readKey text with
    | some (key, '=' :: rest) =>
      match readValue (2 * rest.length + 2) depthLimit (skipSpace rest) with
      | some (v, after) => (d.addValue key v).map (·, after)
      | none => none
    | _ => none

/-- Reads all lines. The first argument bounds their number. -/
def readLines : Nat → Document → List Char → Option Document
  | 0, _, _ => none
  | fuel + 1, d, text =>
    match skipLines text.length text with
    | [] => some d
    | start =>
      match readLine d start with
      | none => none
      | some (next, after) =>
        match lineEnd? (skipComment (skipSpace after)) with
        | none => none
        | some rest => readLines fuel next rest

/-- How the item of a field counts as a value. -/
def Item.asValue : Item → Value
  | .value v => v
  | .tables => .sequence
  | _ => .table

end File

/-- The settings that a file holds, by field. -/
structure FileValues where
  platformRoot : Option Value
  propertiesFile : Option Value
  deriving DecidableEq, Repr

namespace FileValues

/-- The values of a file that does not exist, or holds nothing. -/
def empty : FileValues := ⟨none, none⟩

/-- The value for a field. -/
def value? (v : FileValues) : Field → Option Value
  | .platformRoot => v.platformRoot
  | .propertiesFile => v.propertiesFile

/-- Reads a settings file; nothing if it does not parse. A mark of the byte order at its beginning
does not count. -/
def parse? (text : String) : Option FileValues :=
  let body :=
    match text.toList with
    | '\ufeff' :: rest => rest
    | all => all
  (File.readLines (body.length + 1) .empty body).map fun d =>
    let valueAt (f : Field) : Option Value := (d.items.get? [f.key]).map File.Item.asValue
    ⟨valueAt .platformRoot, valueAt .propertiesFile⟩

end FileValues

end Heritage.Settings
