import Heritage.Chain
import Heritage.Failure

/-!
# Extractors

An extractor knows what each place contributes to the fragments of one kind, and how to merge what a
later place contributes into what is there. A place may contribute nothing; then what is there
passes through.

`Extractor.fold` says what a chain resolves to, without regard to any cache: the contributions of
its nodes are merged from left to right into the default fragment, up to the first failure.
-/

namespace Heritage

/-- Contributions of places to fragments, and their merge. -/
structure Extractor (F : Type) where
  /-- What every chain starts with. -/
  initial : F
  /-- The contribution of exactly this package, not of those above it. -/
  ofPackage : String → Except Failure (Option F)
  /-- The contribution of exactly this type. -/
  ofType : DeclaredType → Except Failure (Option F)
  /-- The contribution of the member itself. -/
  ofMember : Member → Except Failure (Option F)
  /-- The second fragment, from a later place, merged into the first. -/
  merge : F → F → F

namespace Extractor

variable {F : Type}

/-- The contribution of a node. The defaults are where a chain starts, and contribute nothing to it.
-/
def contribution (e : Extractor F) : Node → Except Failure (Option F)
  | .defaults => .ok none
  | .package name => e.ofPackage name
  | .type declared => e.ofType declared
  | .member m => e.ofMember m

/-- A contribution merged into the fragment that is there. -/
def apply (e : Extractor F) (parent : F) : Option F → F
  | none => parent
  | some child => e.merge parent child

/-- What the contribution of a node makes of the fragment that is there. -/
def step (e : Extractor F) (parent : F) (node : Node) : Except Failure F :=
  (e.contribution node).map (e.apply parent)

/-- What the nodes of a chain make of a fragment, one after another. -/
def foldFrom (e : Extractor F) (parent : F) : List Node → Except Failure F
  | [] => .ok parent
  | node :: rest =>
    match e.step parent node with
    | .error failure => .error failure
    | .ok next => foldFrom e next rest

/-- What a chain resolves to. -/
def fold (e : Extractor F) (c : Chain) : Except Failure F :=
  e.foldFrom e.initial c.nodes

end Extractor

end Heritage
