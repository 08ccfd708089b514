import Heritage.Kinds.ResourceLookup

/-!
# Set-up of the runtime

How the runtime around a target is set up. Device qualifiers that begin with a plus sign are
appended to the inherited ones; where nothing is inherited, they stand alone without that sign.
Shadows and instrumented packages accumulate along a chain.
-/

namespace Heritage

/-- The set-up of the runtime. -/
structure RuntimeSetup where
  qualifiers : Option String
  application : Option String
  shadows : ListSetting String
  instrumentedPackages : ListSetting String
  deriving DecidableEq, Repr

namespace RuntimeSetup

/-- The set-up that nothing has been said about. -/
def empty : RuntimeSetup := ⟨none, none, .unset, .unset⟩

/-- What follows the plus sign that qualifiers begin with; nothing when they begin otherwise. -/
def extension? (qualifiers : String) : Option String :=
  match qualifiers.toList with
  | '+' :: rest => some (String.ofList rest)
  | _ => none

/-- The qualifiers of `child` laid over those of `parent`. -/
def overlayQualifiers (parent child : Option String) : Option String :=
  match parent, child with
  | inherited, none => inherited
  | some inherited, some declared =>
    match extension? declared with
    | some _ => some (inherited ++ " " ++ declared)
    | none => some declared
  | none, some declared =>
    match extension? declared with
    | some rest => if rest = "" then none else some rest
    | none => some declared

theorem extension?_eq_some_iff {qualifiers rest : String} :
    extension? qualifiers = some rest ↔ qualifiers = "+" ++ rest := by
  rw [← String.toList_inj, String.toList_append, show "+".toList = ['+'] from rfl]
  unfold extension?
  split
  · rename_i cs hChars
    rw [hChars, Option.some.injEq, ← String.toList_inj, String.toList_ofList]
    simp
  · rename_i hChars
    simp only [reduceCtorEq, false_iff]
    exact hChars rest.toList

theorem extension?_append {qualifiers rest : String} (h : extension? qualifiers = some rest)
    (more : String) : extension? (qualifiers ++ more) = some (rest ++ more) := by
  rw [extension?_eq_some_iff] at h ⊢
  rw [h, String.append_assoc]

theorem extension?_append_of_none {qualifiers : String} (h : extension? qualifiers = none)
    (more : String) : extension? (qualifiers ++ " " ++ more) = none := by
  unfold extension? at h ⊢
  cases hChars : qualifiers.toList with
  | nil => simp [hChars]
  | cons c cs =>
    by_cases hPlus : c = '+'
    · simp [hChars, hPlus] at h
    · simp [hChars, hPlus]

@[simp] theorem overlayQualifiers_none (parent : Option String) :
    overlayQualifiers parent none = parent := by
  cases parent <;> rfl

theorem overlayQualifiers_of_plain {declared : String} (h : extension? declared = none)
    (parent : Option String) : overlayQualifiers parent (some declared) = some declared := by
  cases parent <;> simp [overlayQualifiers, h]

theorem overlayQualifiers_of_extension {declared rest : String}
    (h : extension? declared = some rest) (inherited : String) :
    overlayQualifiers (some inherited) (some declared) = some (inherited ++ " " ++ declared) := by
  simp [overlayQualifiers, h]

theorem overlayQualifiers_of_nothing {declared rest : String}
    (h : extension? declared = some rest) :
    overlayQualifiers none (some declared) = if rest = "" then none else some rest := by
  simp [overlayQualifiers, h]

/-- The set-up `child` laid over `parent`. -/
def overlay (parent child : RuntimeSetup) : RuntimeSetup where
  qualifiers := overlayQualifiers parent.qualifiers child.qualifiers
  application := child.application.or parent.application
  shadows := parent.shadows.overlay child.shadows
  instrumentedPackages := parent.instrumentedPackages.overlay child.instrumentedPackages

@[simp] theorem overlay_empty (parent : RuntimeSetup) : parent.overlay empty = parent := by
  simp [overlay, empty]

/-- What one place declares about the set-up. -/
structure Declaration where
  qualifiers : Option String
  application : Option String
  shadows : Option (List String)
  instrumentedPackages : Option (List String)
  deriving DecidableEq, Repr

/-- Reads a declaration from properties, which can always be done. -/
def Declaration.ofProperties (p : Properties) : Declaration where
  qualifiers := p.string? "qualifiers"
  application := p.string? "application"
  shadows := p.list? "shadows"
  instrumentedPackages := p.list? "instrumentedPackages"

/-- The record that a declaration is written as. -/
def Declaration.shape : Blob.RecordShape := ⟨"RuntimeDeclaration", 4⟩

/-- Reads a declaration from the fields of an object. -/
def Declaration.ofFields (fields : List (String × Blob)) : Except Blob.Fault Declaration := do
  let application ← Blob.field fields "application" Blob.string
  let instrumentedPackages ← Blob.field fields "instrumentedPackages" (Blob.listOf Blob.string)
  let qualifiers ← Blob.field fields "qualifiers" Blob.string
  let shadows ← Blob.field fields "shadows" (Blob.listOf Blob.string)
  return ⟨qualifiers, application, shadows, instrumentedPackages⟩

/-- Reads a declaration from the elements of an array. -/
def Declaration.ofElements (items : List Blob) : Except Blob.Fault Declaration := do
  let qualifiers ← shape.element items 0 Blob.string
  let application ← shape.element items 1 Blob.string
  let shadows ← shape.element items 2 (Blob.listOf Blob.string)
  let instrumentedPackages ← shape.element items 3 (Blob.listOf Blob.string)
  return ⟨qualifiers, application, shadows, instrumentedPackages⟩

/-- The set-up that a declaration contributes. Empty qualifiers count as undeclared. -/
def ofDeclaration (d : Declaration) : RuntimeSetup where
  qualifiers := d.qualifiers.filter (· ≠ "")
  application := d.application
  shadows := .declared .accumulate d.shadows
  instrumentedPackages := .declared .accumulate d.instrumentedPackages

/-- The summary of a set-up. -/
def summary (r : RuntimeSetup) : String :=
  let scalar := Text.summaryOfOption Text.quoted
  Text.summaryOfRecord "RuntimeOptions"
    [("qualifiers", scalar r.qualifiers), ("application", scalar r.application),
      ("shadows", r.shadows.summary),
      ("instrumented_packages", r.instrumentedPackages.summary)] true

instance : Declarable RuntimeSetup where
  Declaration := Declaration
  kindName := "ancestry_config::declared::kinds::RuntimeOptions"
  ofProperties p := .ok (Declaration.ofProperties p)
  ofBlob := Declaration.shape.read Declaration.ofFields Declaration.ofElements
  ofDeclaration := ofDeclaration
  overlay := overlay
  summary := summary

end RuntimeSetup

end Heritage
