import Heritage.Settings.Value

/-!
# Faults of settings

Settings come in layers, each of which may hold a value for each field. Gathering them fails when
the settings file cannot be parsed, or when the value that wins for a field is not a text.
-/

namespace Heritage.Settings

/-- The fields of the settings. -/
inductive Field where
  | platformRoot
  | propertiesFile
  deriving DecidableEq, Repr

/-- The key of a field in the settings file; in the environment it is written after a common start.
-/
def Field.key : Field → String
  | .platformRoot => "platform_root"
  | .propertiesFile => "properties_file"

/-- The layers above the defaults. -/
inductive Layer where
  | file
  | environment
  deriving DecidableEq, Repr

/-- How messages name a layer. -/
def Layer.text : Layer → String
  | .file => "TOML file"
  | .environment => "`ANCESTRY_CONFIG_` environment variable(s)"

/-- Why settings cannot be gathered. -/
inductive Fault where
  /-- The settings file does not parse. -/
  | unparsable
  /-- The value that wins for a field is not a text. -/
  | wrongType (field : Field) (found : Value) (layer : Layer)
  /-- A field has no value at all. -/
  | missing (field : String)
  /-- Any other trouble, with its description. -/
  | other (description : String)
  deriving DecidableEq, Repr

namespace Fault

/-- The message shown for a fault. -/
def message : Fault → String
  | unparsable => "syntax"
  | wrongType _ found _ => "invalid type: found " ++ found.description ++ ", expected a string"
  | missing field => "missing field `" ++ field ++ "`"
  | other description => description

/-- The keys that lead to the value at fault. -/
def path : Fault → List String
  | wrongType field _ _ => [field.key]
  | _ => []

/-- The layer at fault, where it is known. -/
def layer? : Fault → Option Layer
  | unparsable => some .file
  | wrongType _ _ layer => some layer
  | _ => none

/-- Whether the fault tells of a field without a value. -/
def isMissing : Fault → Bool
  | missing _ => true
  | _ => false

end Fault

end Heritage.Settings
