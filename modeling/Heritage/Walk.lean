import Heritage.Cache
import Heritage.Extractor

/-!
# Walks

A walk resolves a chain for one registered extractor and fills the cache on the way. It requests the
defaults and then, node by node, what the chain resolves to up to there; only what is missing is
fetched from the extractor and merged. What the member contributes is fetched every time and never
stored. The first failure ends the walk, and what was stored before it stays.
-/

namespace Heritage

/-- The names of the first types of a lineage, the types themselves, and the places they stand for
in chains of a package; `above` holds the names of the types before them. -/
def typePlaces (package : String) (above : List String) :
    List DeclaredType → List (Place × Node)
  | [] => []
  | declared :: rest =>
    let lineage := above ++ [declared.name]
    (.type package lineage, .type declared) :: typePlaces package lineage rest

/-- The nodes of a chain between the defaults and the member, with the places of their cache
entries. -/
def Chain.places (c : Chain) : List (Place × Node) :=
  c.packages.map (fun name => (.package name, .package name)) ++ typePlaces c.package [] c.types

/-- A registered extractor, known by a number. -/
structure Registration (κ : Type) [FragmentFamily κ] where
  id : Nat
  kind : κ
  extractor : Extractor (Fragment kind)

/-- What a walk leaves: its outcome, the cache, and the nodes that were fetched, in order. -/
structure Walk (κ : Type) [FragmentFamily κ] (k : κ) where
  outcome : Except Failure (Fragment k)
  cache : Cache κ
  fetched : List Node

/-- The walk `w` with the node of an answer put before what it fetched, if the answer was computed.
-/
def Walk.after {κ : Type} [FragmentFamily κ] {k : κ} (answer : Cache.Answer κ k Unit) (node : Node)
    (w : Walk κ k) : Walk κ k :=
  if answer.report.isSome then { w with fetched := node :: w.fetched } else w

namespace Registration

variable {κ : Type} [FragmentFamily κ] [DecidableEq κ]

/-- The key of the entry for a place. -/
def key (r : Registration κ) (place : Place) : CacheKey κ :=
  ⟨r.id, r.kind, place⟩

/-- Requests what a chain resolves to up to `place`. If it is missing, `fetch` gives what fetching
and merging the contribution of the last node leads to. -/
def request (r : Registration κ) (cache : Cache κ) (place : Place)
    (fetch : Unit → Except Failure (Fragment r.kind)) : Cache.Answer κ r.kind Unit :=
  cache.getOrCompute (r.key place) r.kind fun c => ⟨fetch (), c, ()⟩

/-- Walks on from `current`, which is what the chain resolves to before the nodes `places`. -/
def walkFrom (r : Registration κ) (member : Member) (current : Fragment r.kind) (cache : Cache κ) :
    List (Place × Node) → Walk κ r.kind
  | [] => ⟨r.extractor.step current (.member member), cache, [.member member]⟩
  | (place, node) :: rest =>
    let answer := r.request cache place fun _ => r.extractor.step current node
    Walk.after answer node <|
      match answer.outcome with
      | .error failure => ⟨.error failure, answer.cache, []⟩
      | .ok next => walkFrom r member next answer.cache rest

/-- Walks a chain. -/
def walk (r : Registration κ) (chain : Chain) (cache : Cache κ) : Walk κ r.kind :=
  let answer := r.request cache .defaults fun _ => .ok r.extractor.initial
  Walk.after answer .defaults <|
    match answer.outcome with
    | .error failure => ⟨.error failure, answer.cache, []⟩
    | .ok initial => r.walkFrom chain.member initial answer.cache chain.places

end Registration

end Heritage
