import Heritage.Resource.PropertyFile
import Heritage.Settings.Environment
import Heritage.Settings.File

/-!
# Settings

The settings of resolvers are gathered in layers: the defaults, the settings file, and the
environment. Each field is taken from the highest layer that holds a value for it, whatever the
layers below hold. Gathering fails if the file does not parse, or if a value that is taken is not a
text; of two such values the one whose key comes first is reported.

* `Settings.chosen?_of_environment`: what the environment holds for a field decides it alone.
-/

namespace Heritage

/-- The settings of resolvers. -/
structure Settings where
  /-- The name of the property files of packages. -/
  propertiesFile : String
  /-- The type that heads every lineage without being a place for declarations. -/
  platformRoot : Option String
  deriving DecidableEq, Repr

namespace Settings

/-- The settings where no layer says anything. -/
def defaults : Settings := ⟨Resource.defaultFileName, none⟩

/-- The value that is taken for a field, with the layer that it comes from. -/
def chosen? (file : FileValues) (env : Environment) (field : Field) : Option (Value × Layer) :=
  match env.value? field with
  | some v => some (v, .environment)
  | none => (file.value? field).map (·, .file)

/-- The text that is taken for a field. -/
def text? (file : FileValues) (env : Environment) (field : Field) : Except Fault (Option String) :=
  match chosen? file env field with
  | none => .ok none
  | some (.text s, _) => .ok (some s)
  | some (found, layer) => .error (.wrongType field found layer)

/-- Gathers the settings from a file that parses and the environment. -/
def gather (file : FileValues) (env : Environment) : Except Fault Settings := do
  let root ← text? file env .platformRoot
  let name ← text? file env .propertiesFile
  return ⟨name.getD defaults.propertiesFile, root.or defaults.platformRoot⟩

/-- Gathers the settings from the text of the file, if there is one, and the environment. -/
def load (file : Option String) (env : Environment) : Except Fault Settings :=
  match file with
  | none => gather .empty env
  | some text =>
    match FileValues.parse? text with
    | none => .error .unparsable
    | some values => gather values env

/-- Gathers the settings without telling why that failed. -/
def load? (file : Option String) (env : Environment) : Option Settings :=
  (load file env).toOption

/-- The way to find property files under these settings. -/
def propertyFile (s : Settings) (load : Resource.Loader) : Resource.PropertyFile :=
  ⟨load, s.propertiesFile⟩

theorem chosen?_of_environment {file : FileValues} {env : Environment} {field : Field} {v : Value}
    (h : env.value? field = some v) : chosen? file env field = some (v, .environment) := by
  simp [chosen?, h]

end Settings

end Heritage
