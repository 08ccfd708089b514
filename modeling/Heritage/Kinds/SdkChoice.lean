import Heritage.Declarable
import Heritage.Text.Summary

/-!
# Platform levels

Which levels of the platform a target runs against: the levels that are named one by one, or all
known levels between two bounds. Named levels replace what is inherited, bounds included; a bound
that is declared without levels clears inherited levels and leaves the other bound as it was.
-/

namespace Heritage

/-- The choice of levels. -/
structure SdkChoice where
  /-- Levels named one by one; none of them when the bounds decide. -/
  levels : List UInt32
  lowest : Option UInt32
  highest : Option UInt32
  deriving DecidableEq, Repr

namespace SdkChoice

/-- The choice that nothing has been said about. -/
def empty : SdkChoice := ⟨[], none, none⟩

/-- Whether a level lies within the bounds. -/
def admits (c : SdkChoice) (level : UInt32) : Bool :=
  c.lowest.all (· ≤ level) && c.highest.all (level ≤ ·)

/-- The levels to run against, where `known` lists all levels there are. -/
def select (c : SdkChoice) (known : List UInt32) : List UInt32 :=
  if c.levels = [] then known.filter c.admits else c.levels

/-- The choice `child` laid over `parent`. -/
def overlay (parent child : SdkChoice) : SdkChoice :=
  if child.levels ≠ [] then child
  else
    { levels := if child.lowest.isSome || child.highest.isSome then [] else parent.levels
      lowest := child.lowest.or parent.lowest
      highest := child.highest.or parent.highest }

/-- Whether a choice sets a bound. -/
def isBounded (c : SdkChoice) : Bool :=
  c.lowest.isSome || c.highest.isSome

theorem overlay_of_levels {child : SdkChoice} (h : child.levels ≠ []) (parent : SdkChoice) :
    parent.overlay child = child :=
  if_pos h

theorem overlay_of_bounds {child : SdkChoice} (hLevels : child.levels = [])
    (hBounded : child.isBounded = true) (parent : SdkChoice) :
    parent.overlay child =
      ⟨[], child.lowest.or parent.lowest, child.highest.or parent.highest⟩ := by
  unfold isBounded at hBounded
  rw [overlay, if_neg (not_not_intro hLevels), if_pos hBounded]

theorem eq_empty {c : SdkChoice} (hLevels : c.levels = []) (hBounded : c.isBounded = false) :
    c = empty := by
  obtain ⟨levels, lowest, highest⟩ := c
  cases lowest <;> cases highest <;> simp_all [isBounded, empty]

@[simp] theorem overlay_empty (parent : SdkChoice) : parent.overlay empty = parent := by
  simp [overlay, empty]

/-- What one place declares about levels. -/
structure Declaration where
  levels : Option (List UInt32)
  lowest : Option UInt32
  highest : Option UInt32
  deriving DecidableEq, Repr

/-- Reads a declaration from properties. -/
def Declaration.ofProperties (p : Properties) : Except PropertyFault Declaration := do
  let levels ← p.values? ValueReader.word "sdk"
  let lowest ← p.value? ValueReader.word "minSdk"
  let highest ← p.value? ValueReader.word "maxSdk"
  return ⟨levels, lowest, highest⟩

/-- The record that a declaration is written as. -/
def Declaration.shape : Blob.RecordShape := ⟨"SdkDeclaration", 3⟩

/-- Reads a declaration from the fields of an object. -/
def Declaration.ofFields (fields : List (String × Blob)) : Except Blob.Fault Declaration := do
  let highest ← Blob.field fields "maxSdk" Blob.word
  let lowest ← Blob.field fields "minSdk" Blob.word
  let levels ← Blob.field fields "sdk" (Blob.listOf Blob.word)
  return ⟨levels, lowest, highest⟩

/-- Reads a declaration from the elements of an array. -/
def Declaration.ofElements (items : List Blob) : Except Blob.Fault Declaration := do
  let levels ← shape.element items 0 (Blob.listOf Blob.word)
  let lowest ← shape.element items 1 Blob.word
  let highest ← shape.element items 2 Blob.word
  return ⟨levels, lowest, highest⟩

/-- The choice that a declaration contributes. -/
def ofDeclaration (d : Declaration) : SdkChoice :=
  ⟨d.levels.getD [], d.lowest, d.highest⟩

/-- The summary of a choice. -/
def summary (c : SdkChoice) : String :=
  Text.summaryOfRecord "SdkSelection"
    [("sdk", Text.summaryOfList toString c.levels),
      ("min_sdk", Text.summaryOfOption toString c.lowest),
      ("max_sdk", Text.summaryOfOption toString c.highest)] true

instance : Declarable SdkChoice where
  Declaration := Declaration
  kindName := "ancestry_config::declared::kinds::SdkSelection"
  ofProperties := Declaration.ofProperties
  ofBlob := Declaration.shape.read Declaration.ofFields Declaration.ofElements
  ofDeclaration := ofDeclaration
  overlay := overlay
  summary := summary

end SdkChoice

end Heritage
