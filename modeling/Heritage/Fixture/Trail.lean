import Heritage.Extractor

/-!
# Trails

A trail is made of the labels of all places that a resolution was folded from. Its extractor
contributes the label of every place, so a trail shows the order of a fold and whether anything was
folded twice.
-/

namespace Heritage.Fixture

/-- The labels of places, with colons between them. -/
structure Trail where
  text : String
  deriving DecidableEq, Repr

/-- The label of a place. A member is labelled by its own name, whichever type declares it. -/
def label : Node → String
  | .member m => m.name
  | node => node.text

/-- The extractor of trails. -/
def trailExtractor : Extractor Trail where
  initial := ⟨label .defaults⟩
  ofPackage name := .ok (some ⟨label (.package name)⟩)
  ofType declared := .ok (some ⟨label (.type declared)⟩)
  ofMember m := .ok (some ⟨label (.member m)⟩)
  merge parent child := ⟨parent.text ++ ":" ++ child.text⟩

end Heritage.Fixture
