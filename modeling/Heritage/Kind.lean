import Heritage.Fixture.Script
import Heritage.Fixture.Trail
import Heritage.FragmentFamily
import Heritage.Kinds.RuntimeSetup
import Heritage.Kinds.SdkChoice

/-!
# The kinds of configuration

Three kinds are declared by properties and blobs. Three more serve to watch resolutions: trails,
texts and numbers.
-/

namespace Heritage

/-- The kinds of configuration there are. -/
inductive Kind where
  | sdk
  | resources
  | runtime
  | trail
  | text
  | number
  deriving DecidableEq, Repr

/-- The fragments of each kind. -/
abbrev Kind.FragmentType : Kind → Type
  | .sdk => SdkChoice
  | .resources => ResourceLookup
  | .runtime => RuntimeSetup
  | .trail => Fixture.Trail
  | .text => String
  | .number => UInt32

/-- The names that messages show for the kinds. -/
def Kind.name : Kind → String
  | .sdk => Declarable.kindName SdkChoice
  | .resources => Declarable.kindName ResourceLookup
  | .runtime => Declarable.kindName RuntimeSetup
  | .trail => "ancestry_config_test_helpers::spy::Trail"
  | .text => Fixture.Scripted.kindName String
  | .number => Fixture.Scripted.kindName UInt32

@[reducible] instance : FragmentFamily Kind where
  Fragment := Kind.FragmentType
  name := Kind.name

end Heritage
