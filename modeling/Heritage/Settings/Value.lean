import Heritage.Decimal.Shortest

/-!
# Values of settings

A layer of settings holds a value for a field. Only texts are of use to the fields there are; of
every other value it is enough to know what a message says about it.
-/

namespace Heritage.Settings

/-- What a layer holds for a field. The content of sequences and tables is left out. -/
inductive Value where
  | text (content : String)
  | boolean (value : Bool)
  | unsigned (value : Nat)
  | signed (value : Int)
  | float (shown : String)
  | sequence
  | table
  deriving DecidableEq, Repr

/-- How a message names a value that was found. -/
def Value.description : Value → String
  | .text content => "string \"" ++ content ++ "\""
  | .boolean true => "bool true"
  | .boolean false => "bool false"
  | .unsigned value => "unsigned int `" ++ toString value ++ "`"
  | .signed value => "signed int `" ++ toString value ++ "`"
  | .float shown => "float `" ++ shown ++ "`"
  | .sequence => "sequence"
  | .table => "map"

/-- The value of a literal that is written as a float. Its text never has an exponent, and a point
only before a fraction; of two equally near decimals it takes the one further from zero. -/
def Value.ofFloat (d : Decimal) : Value :=
  .float (d.floatText .up (Digits.positional 0))

end Heritage.Settings
