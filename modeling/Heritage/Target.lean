/-!
# Targets

Configuration is resolved for a target: one member of a type, together with the types that the type
inherits from. The lineage of a target runs from the most basic type to the most derived one. The
type that declares the member may be any of them.
-/

namespace Heritage

/-- A type on a lineage, with the dot-separated package that it lives in; the package may be one
that the name does not show. -/
structure DeclaredType where
  name : String
  package : String
  deriving DecidableEq, Repr

/-- A member and the name of the type that declares it. -/
structure Member where
  owner : String
  name : String
  deriving DecidableEq, Repr

/-- What configuration is resolved for. -/
structure Target where
  lineage : List DeclaredType
  member : Member
  deriving DecidableEq, Repr

/-- What stands before the last dot of a name; nothing when there is no dot. -/
def packageOfName (name : String) : String :=
  String.ofList (['.'].intercalate (name.toList.splitOn '.').dropLast)

/-- The type of that name, living in the package that the name shows. -/
def DeclaredType.ofName (name : String) : DeclaredType :=
  ⟨name, packageOfName name⟩

/-- A member is shown behind the type that declares it. -/
def Member.text (m : Member) : String :=
  m.owner ++ "#" ++ m.name

namespace Target

/-- The most derived type of the lineage. -/
def leaf? (t : Target) : Option DeclaredType :=
  t.lineage.getLast?

/-- The target for a member that the most derived type declares itself. -/
def ofLeafMember (lineage : List DeclaredType) (name : String) : Target :=
  ⟨lineage, ⟨(lineage.getLast?.map DeclaredType.name).getD "", name⟩⟩

/-- A target is shown by its most derived type, whichever type declares the member. -/
def text (t : Target) : String :=
  (match t.leaf? with
    | some leaf => leaf.name
    | none => "<no type>") ++ "#" ++ t.member.name

end Target

example : packageOfName "org.example.Leaf" = "org.example" ∧ packageOfName "Leaf" = "" ∧
    packageOfName "..Leaf" = "." := by decide

end Heritage
