import Heritage.Blob.Basic

/-!
# Reading blobs

A blob is read as a word, a text, a list, or a record all of whose fields are optional. A record is
written as an object, whose other keys do not matter, or as an array that holds all its fields in
order. In an object the fields are looked at in the order of their keys, in an array in the order of
the elements, and the first fault decides. A null stands for a field that is not declared.
-/

namespace Heritage.Blob

/-- What a reader expects. -/
inductive Expected where
  | word
  | text
  | sequence
  | record (name : String)
  deriving DecidableEq, Repr

/-- How messages name what was expected. -/
def Expected.description : Expected → String
  | .word => "u32"
  | .text => "a string"
  | .sequence => "a sequence"
  | .record name => "struct " ++ name

/-- Why a blob cannot be read. -/
inductive Fault where
  /-- A value of another type, with its description. -/
  | wrongType (found : String) (expected : Expected)
  /-- An integer that is no word. -/
  | notAWord (value : Int)
  /-- An array that ends before all fields of a record are read. -/
  | tooShort (length : Nat) (name : String) (fields : Nat)
  /-- An array that goes on after all fields of a record are read. -/
  | tooLong (length : Nat)
  deriving DecidableEq, Repr

/-- The message shown for a fault. -/
def Fault.message : Fault → String
  | .wrongType found expected => "invalid type: " ++ found ++ ", expected " ++ expected.description
  | .notAWord value => "invalid value: integer `" ++ toString value ++ "`, expected u32"
  | .tooShort length name fields =>
    "invalid length " ++ toString length ++ ", expected struct " ++ name ++ " with " ++
      toString fields ++ " elements"
  | .tooLong length =>
    "invalid length " ++ toString length ++ ", expected fewer elements in array"

/-- A way to read blobs as values of a type. -/
abbrev Reader (α : Type) := Blob → Except Fault α

/-- Reads a number of 32 bits. -/
def word : Reader UInt32
  | .integer n =>
    if 0 ≤ n && n < Int.pow 2 32 then .ok (UInt32.ofNat n.toNat) else .error (.notAWord n)
  | b => .error (.wrongType b.description .word)

/-- Reads a text. -/
def string : Reader String
  | .text s => .ok s
  | b => .error (.wrongType b.description .text)

/-- Reads a list, the first element that cannot be read deciding. -/
def listOf {α : Type} (reader : Reader α) : Reader (List α)
  | .array items => items.mapM reader
  | b => .error (.wrongType b.description .sequence)

/-- Reads a value that may be null. -/
def optional {α : Type} (reader : Reader α) : Reader (Option α)
  | .null => .ok none
  | b => (reader b).map some

/-- Reads a field of an object. -/
def field {α : Type} (fields : List (String × Blob)) (key : String) (reader : Reader α) :
    Except Fault (Option α) :=
  match Table.find? key fields with
  | none => .ok none
  | some b => optional reader b

/-- The name and the number of fields of a record. -/
structure RecordShape where
  name : String
  size : Nat
  deriving DecidableEq, Repr

/-- Reads the field at a position of an array. -/
def RecordShape.element {α : Type} (shape : RecordShape) (items : List Blob) (index : Nat)
    (reader : Reader α) : Except Fault (Option α) :=
  match items[index]? with
  | none => .error (.tooShort items.length shape.name shape.size)
  | some b => optional reader b

/-- Reads a record from an object or an array. -/
def RecordShape.read {α : Type} (shape : RecordShape)
    (ofObject : List (String × Blob) → Except Fault α)
    (ofArray : List Blob → Except Fault α) : Reader α
  | .object fields => ofObject fields
  | .array items => do
    let value ← ofArray items
    if shape.size < items.length then .error (.tooLong items.length) else .ok value
  | b => .error (.wrongType b.description (.record shape.name))

end Heritage.Blob
