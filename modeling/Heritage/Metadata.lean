import Heritage.Blob.Basic
import Heritage.Target

/-!
# Metadata

Types and members may have a blob each. A type is known by its name alone, a member by its own name
and that of the type that declares it. A missing blob differs from a null.

This is metadata that is known in advance and kept in two tables. Other sources of metadata, which
might tell types of one name apart by their packages, are left out.
-/

namespace Heritage

/-- The blobs of types and members. -/
structure Metadata where
  types : Table String Blob
  members : Table (String × String) Blob

namespace Metadata

/-- Metadata without blobs. -/
def empty : Metadata := ⟨.empty, .empty⟩

/-- The metadata with a blob for a type, which replaces an earlier one. -/
def insertType (m : Metadata) (name : String) (blob : Blob) : Metadata :=
  { m with types := m.types.insert name blob }

/-- The metadata with a blob for a member, which replaces an earlier one. -/
def insertMember (m : Metadata) (owner name : String) (blob : Blob) : Metadata :=
  { m with members := m.members.insert (owner, name) blob }

/-- The blob of a type. -/
def ofType? (m : Metadata) (type : DeclaredType) : Option Blob :=
  m.types.get? type.name

/-- The blob of a member. -/
def ofMember? (m : Metadata) (member : Member) : Option Blob :=
  m.members.get? (member.owner, member.name)

end Metadata

end Heritage
