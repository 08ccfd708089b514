import Heritage.Decimal.Shortest
import Heritage.Table
import Heritage.Text.Quoted

/-!
# Blobs

A blob is what a type or a member declares: a tree of dynamic values. A number is an integer only if
it is written without point and exponent and fits 64 bits, signed or not; every other number is a
float, and so is an integer zero with a minus sign. An object gives at most one value to a key.
-/

namespace Heritage

/-- A dynamic value. -/
inductive Blob where
  | null
  | boolean (value : Bool)
  | integer (value : Int)
  | float (value : Decimal)
  | text (value : String)
  | array (items : List Blob)
  | object (fields : List (String × Blob))

namespace Blob

/-- The value of a number literal, where `isWhole` tells that it has neither point nor exponent. -/
def ofNumber (d : Decimal) (isWhole : Bool) : Blob :=
  if !isWhole then .float d
  else if d.negative then
    if d.mantissa = 0 || Nat.pow 2 63 < d.mantissa then .float d else .integer (-d.mantissa)
  else if d.mantissa < Nat.pow 2 64 then .integer d.mantissa
  else .float d

/-- The object that holds `fields`, the last value counting where a key comes again. -/
def ofFields (fields : List (String × Blob)) : Blob :=
  .object (Table.ofList fields).entries

/-- How floats are written: without an exponent from a hundred-thousandth up to below ten to the
sixteenth, and then with at least one digit behind the point. -/
def floatLayout (d : Digits) : String :=
  if -5 ≤ d.leading && d.leading < 16 then d.positional 1 else d.scientific

/-- How messages name a value that was found. -/
def description : Blob → String
  | .null => "null"
  | .boolean true => "boolean `true`"
  | .boolean false => "boolean `false`"
  | .integer n => "integer `" ++ toString n ++ "`"
  | .float d => "floating point `" ++ d.floatText .toEven floatLayout ++ "`"
  | .text s => "string " ++ Text.quoted s
  | .array _ => "sequence"
  | .object _ => "map"

end Blob

end Heritage
