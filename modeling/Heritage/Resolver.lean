import Heritage.Configuration
import Heritage.Walk

/-!
# Resolvers

A resolver walks the chain of a target for each of its extractors in turn. The walks share a cache,
but no walk sees the entries of another registration. Only a target without a chain makes a
resolution fail as a whole; then no extractor is asked and the cache stays as it was.

Resolvers are built by registering extractors, at most one for each kind. Registrations are
numbered, and the numbers of all resolvers that share a cache must differ, so a builder starts from
a number that has not been used and says which one is next.
-/

namespace Heritage

/-- The summary shown for the way chains are built. -/
def rootSummary (root : Option String) : String :=
  Text.summaryOfRecord "AncestryWalker"
    [("platform_root", Text.summaryOfOption Text.quoted root)] true

/-- Registered extractors, and the root of the platform if there is one. -/
structure Resolver (κ : Type) [FragmentFamily κ] where
  root : Option String
  registrations : List (Registration κ)

/-- What a resolution leaves: its outcome, the cache, and the nodes that were fetched, each with the
kind that it was fetched for. -/
structure Resolution (κ : Type) [FragmentFamily κ] where
  outcome : Except Failure (Configuration κ)
  cache : Cache κ
  fetched : List (κ × Node)

/-- What walking a chain for several registrations leaves. -/
structure Tour (κ : Type) [FragmentFamily κ] where
  entries : List (ConfigurationEntry κ)
  cache : Cache κ
  fetched : List (κ × Node)

namespace Resolver

variable {κ : Type} [FragmentFamily κ]

/-- The kinds that the resolver resolves, in the order of their registration. -/
def kinds (r : Resolver κ) : List κ :=
  r.registrations.map (·.kind)

/-- The summary shown for a resolver that uses a cache. -/
def summary (r : Resolver κ) (cache : Cache κ) : String :=
  Text.summaryOfRecord "Resolver"
    [("kinds", Text.summaryOfList Text.quoted (r.kinds.map kindName)),
      ("cache", cache.summary), ("walker", rootSummary r.root)] true

variable [DecidableEq κ]

/-- Walks a chain for one registration after another. -/
def tour (chain : Chain) (cache : Cache κ) : List (Registration κ) → Tour κ
  | [] => ⟨[], cache, []⟩
  | r :: rest =>
    let walk := r.walk chain cache
    let others := tour chain walk.cache rest
    ⟨⟨r.kind, walk.outcome⟩ :: others.entries, others.cache,
      walk.fetched.map (r.kind, ·) ++ others.fetched⟩

/-- Resolves all kinds for a target. -/
def resolve (r : Resolver κ) (cache : Cache κ) (target : Target) : Resolution κ :=
  match Chain.ofTarget r.root target with
  | .error fault => ⟨.error (.ambiguous target.text fault.message), cache, []⟩
  | .ok chain =>
    let t := tour chain cache r.registrations
    ⟨.ok ⟨chain.target, t.entries⟩, t.cache, t.fetched⟩

end Resolver

/-- A resolver that is being built, and the number of its next registration. -/
structure ResolverBuilder (κ : Type) [FragmentFamily κ] where
  root : Option String
  registrations : List (Registration κ)
  nextId : Nat

namespace ResolverBuilder

variable {κ : Type} [FragmentFamily κ]

/-- The builder without registrations, which will number them from `firstId` on. -/
def start (firstId : Nat) : ResolverBuilder κ := ⟨none, [], firstId⟩

/-- The builder with another way to build chains. -/
def withRoot (b : ResolverBuilder κ) (root : Option String) : ResolverBuilder κ :=
  { b with root }

/-- Registers an extractor, unless there is one for its kind. -/
def register [DecidableEq κ] (b : ResolverBuilder κ) (kind : κ)
    (extractor : Extractor (Fragment kind)) : Except Failure (ResolverBuilder κ) :=
  if kind ∈ b.registrations.map (·.kind) then .error (.duplicateKind (kindName kind))
  else
    .ok { b with
      registrations := b.registrations ++ [⟨b.nextId, kind, extractor⟩]
      nextId := b.nextId + 1 }

/-- The resolver that has been built. -/
def build (b : ResolverBuilder κ) : Resolver κ :=
  ⟨b.root, b.registrations⟩

/-- The summary shown for a builder. -/
def summary (b : ResolverBuilder κ) : String :=
  Text.summaryOfRecord "ResolverBuilder"
    [("registered", toString b.registrations.length), ("walker", rootSummary b.root)] false

end ResolverBuilder

end Heritage
