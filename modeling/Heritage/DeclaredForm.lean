import Heritage.Kinds.ResourceLookup
import Heritage.Kinds.RuntimeSetup
import Heritage.Kinds.SdkChoice
import Heritage.Properties.Printer

/-!
# Forms of a declaration

A declaration is a list of fields, each of which may be absent. It is written as an object for a
type or a member, and as entries of a property file for a package: numbers are written in decimal,
and the entries of a list have commas between them.

A property can hold every number. It holds no empty text, no text that ends in a blank, and as an
entry of a list no text with a comma or with blanks around it.
-/

namespace Heritage

open Text

inductive FieldValue where
  | word (value : UInt32)
  | text (value : String)
  | words (values : List UInt32)
  | texts (values : List String)
  deriving DecidableEq, Repr

/-- Fields with their values; an absent field has none. -/
abbrev Fields := List (String × Option FieldValue)

namespace FieldValue

/-- The blob that a value is written as. -/
def blob : FieldValue → Blob
  | word n => .integer n.toNat
  | text s => .text s
  | words ns => .array (ns.map fun n => .integer n.toNat)
  | texts ss => .array (ss.map .text)

/-- The text that a value is written as. -/
def property : FieldValue → String
  | word n => toString n
  | text s => s
  | words ns => ",".intercalate (ns.map toString)
  | texts ss => ",".intercalate ss

/-- Whether a text is kept as the value of a property. -/
def IsScalar (s : String) : Prop :=
  s ≠ "" ∧ trimEnd s.toList = s.toList

/-- Whether a text is kept as an entry of a list. -/
def IsListEntry (s : String) : Prop :=
  s ≠ "" ∧ trim s.toList = s.toList ∧ ',' ∉ s.toList

/-- Whether a property can hold a value. -/
def Expressible : FieldValue → Prop
  | word _ => True
  | text s => IsScalar s
  | words _ => True
  | texts ss => ∀ s ∈ ss, IsListEntry s

end FieldValue

namespace Fields

/-- The fields that are there, each in the form that it is written in. -/
def written {β : Type} (form : FieldValue → β) (fields : Fields) : List (String × β) :=
  fields.filterMap fun field => field.2.map fun value => (field.1, form value)

/-- Whether properties can hold all values. -/
def Expressible (fields : Fields) : Prop :=
  ∀ field ∈ fields, ∀ value ∈ field.2, value.Expressible

end Fields

def SdkChoice.Declaration.fields (d : SdkChoice.Declaration) : Fields :=
  [("sdk", d.levels.map .words), ("minSdk", d.lowest.map .word), ("maxSdk", d.highest.map .word)]

def ResourceLookup.Declaration.fields (d : ResourceLookup.Declaration) : Fields :=
  [("manifest", d.manifest.map .text), ("resourceDir", d.resourceDir.map .text),
    ("assetDir", d.assetDir.map .text), ("packageName", d.packageName.map .text),
    ("libraries", d.libraries.map .texts)]

def RuntimeSetup.Declaration.fields (d : RuntimeSetup.Declaration) : Fields :=
  [("qualifiers", d.qualifiers.map .text), ("application", d.application.map .text),
    ("shadows", d.shadows.map .texts), ("instrumentedPackages", d.instrumentedPackages.map .texts)]

end Heritage
