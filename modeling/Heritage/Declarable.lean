import Heritage.Blob.Reading
import Heritage.Properties.Value

/-!
# Fragments that can be declared

A fragment of configuration is declared in two ways: by the properties of a package, and by a blob
on a type or a member. Both are read as a declaration, which holds every field as an option, and
only then turned into the fragment. Fragments of one kind can be laid over each other.
-/

namespace Heritage

/-- Fragments that properties and blobs can declare. -/
class Declarable (F : Type) where
  /-- What one place declares, each field being optional. -/
  Declaration : Type
  /-- How messages name the kind of fragment. -/
  kindName : String
  /-- Reads the keys of this kind from a property set. -/
  ofProperties : Properties → Except PropertyFault Declaration
  /-- Reads the keys of this kind from a blob. -/
  ofBlob : Blob.Reader Declaration
  /-- The fragment that a declaration contributes. -/
  ofDeclaration : Declaration → F
  /-- The second fragment laid over the first one. -/
  overlay : F → F → F
  /-- The summary of a fragment on one line. -/
  summary : F → String

end Heritage
