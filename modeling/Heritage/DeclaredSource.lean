import Heritage.Declarable
import Heritage.Extractor
import Heritage.Metadata
import Heritage.Resource.PropertyFile

/-!
# Declared fragments

Fragments of a declarable kind come from two sources: the property file of each package, and the
blobs of types and members. What cannot be read is reported with the kind and the place.
-/

namespace Heritage

/-- Where the declarations of one kind come from, and what every chain starts with. -/
structure DeclaredSource (F : Type) where
  metadata : Metadata
  /-- How property files are found; without it, packages declare nothing. -/
  properties : Option Resource.PropertyFile
  defaults : F

namespace DeclaredSource

variable {F : Type} [Declarable F]

/-- The fragment that a property set contributes as that of a package. -/
def ofProperties (package : String) (p : Properties) : Except Failure F :=
  match Declarable.ofProperties (F := F) p with
  | .ok declaration => .ok (Declarable.ofDeclaration declaration)
  | .error fault =>
    .error (.malformed (Declarable.kindName F) (Node.package package).text fault.message)

/-- The fragment that a blob contributes as that of the place shown as `node`. -/
def ofBlob (node : String) (b : Blob) : Except Failure F :=
  match Declarable.ofBlob (F := F) b with
  | .ok declaration => .ok (Declarable.ofDeclaration declaration)
  | .error fault => .error (.malformed (Declarable.kindName F) node fault.message)

/-- The contribution of a package. -/
def ofPackage (s : DeclaredSource F) (package : String) : Except Failure (Option F) :=
  match s.properties with
  | none => .ok none
  | some file =>
    match file.properties? package with
    | .error failure => .error failure
    | .ok none => .ok none
    | .ok (some p) => (ofProperties package p).map some

/-- The contribution of a blob, where there is one. -/
def ofBlob? (node : String) : Option Blob → Except Failure (Option F)
  | none => .ok none
  | some b => (ofBlob node b).map some

/-- The extractor that reads the declarations. -/
def extractor (s : DeclaredSource F) : Extractor F where
  initial := s.defaults
  ofPackage := s.ofPackage
  ofType declared := ofBlob? declared.name (s.metadata.ofType? declared)
  ofMember m := ofBlob? m.text (s.metadata.ofMember? m)
  merge := Declarable.overlay

/-- The summary shown for a source. -/
def summary (s : DeclaredSource F) : String :=
  Text.summaryOfRecord "DeclaredExtractor"
    [("properties", Text.summaryOfOption Resource.PropertyFile.summary s.properties),
      ("defaults", Declarable.summary s.defaults)] false

end DeclaredSource

end Heritage
