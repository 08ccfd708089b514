import Heritage.Blob.Basic
import Heritage.Extractor

/-!
# Scripts

A script says for each place what it contributes, or with which reason it fails. The same script
serves extractors of texts and of numbers, which are merged so that the result tells the order of
the merges.
-/

namespace Heritage.Fixture

/-- What a script says about a place. -/
inductive Line where
  | value (content : Blob)
  | fail (reason : String)

/-- The lines of a script. Members are known by the text that shows them. -/
structure Script where
  initial : Option Line
  packages : Table String Line
  types : Table String Line
  members : Table String Line

/-- The script that says nothing. -/
def Script.empty : Script := ⟨none, .empty, .empty, .empty⟩

/-- Fragments that a script can contribute. -/
class Scripted (F : Type) where
  kindName : String
  /-- The fragment that a blob stands for; one that is no such fragment stands for the least one. -/
  ofBlob : Blob → F
  /-- The least fragment, which is also what chains start with if the script does not say. -/
  least : F
  merge : F → F → F

instance : Scripted String where
  kindName := "alloc::string::String"
  ofBlob
    | .text s => s
    | _ => ""
  least := ""
  merge parent child := parent ++ ":" ++ child

instance : Scripted UInt32 where
  kindName := "u32"
  ofBlob
    | .integer n => if n < UInt32.size then UInt32.ofNat n.toNat else 0
    | _ => 0
  least := 0
  merge parent child := parent * 10 + child

namespace Script

variable (F : Type) [Scripted F]

/-- The contribution of a line, where `node` shows the place. -/
def contribution (node : String) : Option Line → Except Failure (Option F)
  | none => .ok none
  | some (.value content) => .ok (some (Scripted.ofBlob content))
  | some (.fail reason) => .error (.malformed (Scripted.kindName F) node reason)

/-- The extractor that follows a script. -/
def extractor (s : Script) : Extractor F where
  initial :=
    match s.initial with
    | some (.value content) => Scripted.ofBlob content
    | _ => Scripted.least
  ofPackage name := contribution F name (s.packages.get? name)
  ofType declared := contribution F declared.name (s.types.get? declared.name)
  ofMember m := contribution F m.text (s.members.get? m.text)
  merge := Scripted.merge

end Script

end Heritage.Fixture
