import Heritage.Properties.Basic
import Heritage.Text.Integer

/-!
# Typed values of properties

The value of a key is a text. It can be taken as a scalar, where an empty text counts as no value,
or as a list of entries between commas, where an empty text counts as the empty list and empty
entries are dropped. Either can then be read as values of another type; the first text that is none
is reported.
-/

namespace Heritage

open Text

/-- Why a text is not a value of a type. -/
inductive ValueFault where
  | integer (fault : IntegerFault)
  | notABoolean
  | noCharacter
  | manyCharacters
  deriving DecidableEq, Repr

/-- The diagnostic shown for a text that is not a value of a type. -/
def ValueFault.message : ValueFault → String
  | .integer fault => fault.message
  | .notABoolean => "provided string was not `true` or `false`"
  | .noCharacter => "cannot parse char from empty string"
  | .manyCharacters => "too many characters in string"

/-- A value of a property that cannot be read. -/
structure PropertyFault where
  key : String
  value : String
  reason : String
  deriving DecidableEq, Repr

/-- The message shown for a value that cannot be read. -/
def PropertyFault.message (f : PropertyFault) : String :=
  "property '" ++ f.key ++ "' has invalid value '" ++ f.value ++ "': " ++ f.reason

/-! ## Readers -/

/-- A way to read texts as values of a type. -/
abbrev ValueReader (α : Type) := String → Except ValueFault α

namespace ValueReader

/-- Reads integers of a range. -/
def integer (range : IntegerRange) : ValueReader Int := fun text =>
  (range.read text.toList).mapError .integer

/-- Reads numbers of 32 bits. -/
def word : ValueReader UInt32 := fun text =>
  (integer (.unsigned 32) text).map fun n => UInt32.ofNat n.toNat

/-- Reads truth values. -/
def boolean : ValueReader Bool := fun text =>
  if text = "true" then .ok true
  else if text = "false" then .ok false
  else .error .notABoolean

/-- Reads single characters. -/
def character : ValueReader Char := fun text =>
  match text.toList with
  | [] => .error .noCharacter
  | [c] => .ok c
  | _ => .error .manyCharacters

/-- Takes a text as it is. -/
def text : ValueReader String := .ok

end ValueReader

/-! ## Scalars and lists -/

namespace Properties

/-- The scalar value of a key; an empty value counts as none. -/
def string? (p : Properties) (key : String) : Option String :=
  (p.get? key).filter (· ≠ "")

/-- The entries that a text lists between commas. -/
def listEntries (text : String) : List String :=
  ((text.toList.splitOn ',').map trim).filter (!·.isEmpty) |>.map String.ofList

/-- The entries of a key; a key with an empty value has none, one that is not declared has no list.
-/
def list? (p : Properties) (key : String) : Option (List String) :=
  (p.get? key).map listEntries

/-- Reads one text of a key. -/
def readOne {α : Type} (reader : ValueReader α) (key value : String) : Except PropertyFault α :=
  (reader value).mapError fun fault => ⟨key, value, fault.message⟩

/-- Reads the scalar value of a key. -/
def value? {α : Type} (p : Properties) (reader : ValueReader α) (key : String) :
    Except PropertyFault (Option α) :=
  match p.string? key with
  | none => .ok none
  | some text => (readOne reader key text).map some

/-- Reads every entry of a key. -/
def values? {α : Type} (p : Properties) (reader : ValueReader α) (key : String) :
    Except PropertyFault (Option (List α)) :=
  match p.list? key with
  | none => .ok none
  | some texts => (texts.mapM (readOne reader key)).map some

end Properties

end Heritage
