import Heritage.Declarable
import Heritage.ListSetting
import Heritage.Text.Summary

/-!
# Resource lookup

Where the resources of a target are looked up. Each field is inherited on its own. The libraries of
the last place that declares any replace all inherited ones.
-/

namespace Heritage

/-- The summary of a list setting of texts. -/
def ListSetting.summary : ListSetting String → String
  | .unset => "Unset"
  | .replace items => "Replace(" ++ Text.summaryOfList Text.quoted items ++ ")"
  | .extend items => "Extend(" ++ Text.summaryOfList Text.quoted items ++ ")"

/-- The places where resources are looked up. -/
structure ResourceLookup where
  manifest : Option String
  resourceDir : Option String
  assetDir : Option String
  packageName : Option String
  libraries : ListSetting String
  deriving DecidableEq, Repr

namespace ResourceLookup

/-- The lookup that nothing has been said about. -/
def empty : ResourceLookup := ⟨none, none, none, none, .unset⟩

/-- The lookup `child` laid over `parent`. -/
def overlay (parent child : ResourceLookup) : ResourceLookup where
  manifest := child.manifest.or parent.manifest
  resourceDir := child.resourceDir.or parent.resourceDir
  assetDir := child.assetDir.or parent.assetDir
  packageName := child.packageName.or parent.packageName
  libraries := parent.libraries.overlay child.libraries

@[simp] theorem overlay_empty (parent : ResourceLookup) : parent.overlay empty = parent := by
  simp [overlay, empty]

/-- What one place declares about the lookup. -/
structure Declaration where
  manifest : Option String
  resourceDir : Option String
  assetDir : Option String
  packageName : Option String
  libraries : Option (List String)
  deriving DecidableEq, Repr

/-- Reads a declaration from properties, which can always be done. -/
def Declaration.ofProperties (p : Properties) : Declaration where
  manifest := p.string? "manifest"
  resourceDir := p.string? "resourceDir"
  assetDir := p.string? "assetDir"
  packageName := p.string? "packageName"
  libraries := p.list? "libraries"

/-- The record that a declaration is written as. -/
def Declaration.shape : Blob.RecordShape := ⟨"ResourceDeclaration", 5⟩

/-- Reads a declaration from the fields of an object. -/
def Declaration.ofFields (fields : List (String × Blob)) : Except Blob.Fault Declaration := do
  let assetDir ← Blob.field fields "assetDir" Blob.string
  let libraries ← Blob.field fields "libraries" (Blob.listOf Blob.string)
  let manifest ← Blob.field fields "manifest" Blob.string
  let packageName ← Blob.field fields "packageName" Blob.string
  let resourceDir ← Blob.field fields "resourceDir" Blob.string
  return ⟨manifest, resourceDir, assetDir, packageName, libraries⟩

/-- Reads a declaration from the elements of an array. -/
def Declaration.ofElements (items : List Blob) : Except Blob.Fault Declaration := do
  let manifest ← shape.element items 0 Blob.string
  let resourceDir ← shape.element items 1 Blob.string
  let assetDir ← shape.element items 2 Blob.string
  let packageName ← shape.element items 3 Blob.string
  let libraries ← shape.element items 4 (Blob.listOf Blob.string)
  return ⟨manifest, resourceDir, assetDir, packageName, libraries⟩

/-- The lookup that a declaration contributes. -/
def ofDeclaration (d : Declaration) : ResourceLookup :=
  ⟨d.manifest, d.resourceDir, d.assetDir, d.packageName, .declared .replace d.libraries⟩

/-- The summary of a lookup. -/
def summary (r : ResourceLookup) : String :=
  let scalar := Text.summaryOfOption Text.quoted
  Text.summaryOfRecord "ResourcePaths"
    [("manifest", scalar r.manifest), ("resource_dir", scalar r.resourceDir),
      ("asset_dir", scalar r.assetDir), ("package_name", scalar r.packageName),
      ("libraries", r.libraries.summary)] true

instance : Declarable ResourceLookup where
  Declaration := Declaration
  kindName := "ancestry_config::declared::kinds::ResourcePaths"
  ofProperties p := .ok (Declaration.ofProperties p)
  ofBlob := Declaration.shape.read Declaration.ofFields Declaration.ofElements
  ofDeclaration := ofDeclaration
  overlay := overlay
  summary := summary

end ResourceLookup

end Heritage
