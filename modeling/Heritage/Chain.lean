import Heritage.Target

/-!
# Chains

The chain of a target lists the places that may declare configuration for it, from the most general
to the most specific: the defaults, the packages on the way down to the package of the most derived
type, the types of the lineage, and the member. What a later place declares overrides what an
earlier one does.

Only a linear hierarchy has a chain. A type may head every lineage without being a place where
anything is declared (the root of the platform); it is left out of the chain.

* `Chain.ofTarget` builds the chain or names the first fault of the hierarchy;
* `Chain.nodes_eq` splits the nodes of a chain into its four parts.
-/

namespace Heritage

/-- A place that may declare configuration. The top-level package has the empty name. -/
inductive Node where
  | defaults
  | package (name : String)
  | type (declared : DeclaredType)
  | member (m : Member)
  deriving DecidableEq, Repr

/-- How a package is shown: the top level has a name of its own. -/
def packageText (name : String) : String :=
  if name = "" then "(top)" else name

/-- How a node is shown. -/
def Node.text : Node → String
  | .defaults => "default"
  | .package name => packageText name
  | .type declared => declared.name
  | .member m => m.text

/-! ## The ladder of packages -/

/-- Extends the package `current` by each segment in turn. A dot is put between them only when there
is something before it, so an empty segment at the front adds nothing. -/
def ladderFrom (current : String) : List String → List String
  | [] => []
  | segment :: rest =>
    let next := if current = "" then segment else current ++ "." ++ segment
    next :: ladderFrom next rest

/-- The segments of a dot-separated name. -/
def segments (name : String) : List String :=
  (name.toList.splitOn '.').map String.ofList

/-- The packages on the way from the top level down to `package`. -/
def packageLadder (package : String) : List String :=
  if package = "" then [""] else "" :: ladderFrom "" (segments package)

example : packageLadder "a.b.c" = ["", "a", "a.b", "a.b.c"] := by decide

/-! ## Chains -/

/-- The chain of one target. -/
structure Chain where
  /-- How the target is shown. -/
  target : String
  /-- The package of the most derived type. -/
  package : String
  /-- The types that may declare something, the most basic one first. -/
  types : List DeclaredType
  member : Member
  deriving DecidableEq, Repr

namespace Chain

/-- The packages of the chain, from the top level down. -/
def packages (c : Chain) : List String :=
  packageLadder c.package

/-- All places of the chain, the most general one first. -/
def nodes (c : Chain) : List Node :=
  .defaults :: (c.packages.map .package ++ c.types.map .type ++ [.member c.member])

theorem nodes_eq (c : Chain) :
    c.nodes =
      .defaults :: (c.packages.map .package ++ (c.types.map .type ++ [.member c.member])) := by
  simp [nodes]

/-- Why a hierarchy is not linear. -/
inductive Fault where
  | emptyLineage
  | repeated (name : String)
  | misplacedRoot (name : String)
  | nothingLeft
  | foreignMember (owner : String)
  deriving DecidableEq, Repr

/-- The explanation shown for a fault. -/
def Fault.message : Fault → String
  | .emptyLineage => "empty lineage"
  | .repeated name => "type '" ++ name ++ "' appears more than once"
  | .misplacedRoot name => "platform root '" ++ name ++ "' must be the most-base type"
  | .nothingLeft => "no configurable type in lineage"
  | .foreignMember owner =>
    "member is declared on '" ++ owner ++ "', which is not part of the lineage"

/-- The types of a lineage that may declare something, where `seen` holds the names before it: all
but the platform's root. A name must not come twice, and the root must come first. -/
def configurable (root : Option String) :
    List String → List DeclaredType → Except Fault (List DeclaredType)
  | _, [] => .ok []
  | seen, type :: rest =>
    if type.name ∈ seen then .error (.repeated type.name)
    else if root = some type.name then
      if seen = [] then configurable root [type.name] rest
      else .error (.misplacedRoot type.name)
    else (configurable root (type.name :: seen) rest).map (type :: ·)

/-- The chain of a target, where `root` names the root of the platform, if it has one. -/
def ofTarget (root : Option String) (t : Target) : Except Fault Chain :=
  if t.lineage = [] then .error .emptyLineage
  else do
    let types ← configurable root [] t.lineage
    match types.getLast? with
    | none => .error .nothingLeft
    | some leaf =>
      if t.member.owner ∈ types.map DeclaredType.name then
        .ok ⟨t.text, leaf.package, types, t.member⟩
      else .error (.foreignMember t.member.owner)

end Chain

end Heritage
