import Heritage.DeclaredSource
import Heritage.Kind
import Heritage.Resolver

/-!
# Sessions

A session holds named metadata, stores of resources, scripts, caches and resolvers. Sources may
change between resolutions; an extractor always reads what its sources hold when a resolution asks
it, while the cache keeps what it was given before. What is referred to before it was named is
empty.

A resolution reports every access to a source. Accesses follow from the nodes that were fetched: a
fetch asks the one source that has to do with the node.
-/

namespace Heritage

/-- Resources that may be partly out of order. -/
structure SharedStore where
  store : Resource.Store
  /-- The texts of the paths that cannot be read now. -/
  failing : List String

/-- The sources of a session, by name. -/
structure Sources where
  metadata : Table String Metadata
  stores : Table String SharedStore
  scripts : Table String Fixture.Script

namespace Sources

/-- The metadata of a name. -/
def metadataOf (s : Sources) (name : String) : Metadata :=
  (s.metadata.get? name).getD .empty

/-- The store of a name. -/
def storeOf (s : Sources) (name : String) : SharedStore :=
  (s.stores.get? name).getD ⟨.empty, []⟩

/-- The script of a name. -/
def scriptOf (s : Sources) (name : String) : Fixture.Script :=
  (s.scripts.get? name).getD .empty

end Sources

/-- Which sources the declarations of a kind are read from. -/
structure DeclarationPlan where
  metadata : String
  /-- The store of the property files; without it, packages declare nothing. -/
  resources : Option String
  fileName : String

/-- Where an extractor gets its fragments from. -/
inductive ExtractorPlan where
  | sdk (plan : DeclarationPlan) (defaults : SdkChoice)
  | resources (plan : DeclarationPlan) (defaults : ResourceLookup)
  | runtime (plan : DeclarationPlan) (defaults : RuntimeSetup)
  | trail
  | text (script : String)
  | number (script : String)

/-- The extractor that reads declarations from what the sources hold. -/
def DeclarationPlan.extractor {F : Type} [Declarable F] (p : DeclarationPlan) (s : Sources)
    (defaults : F) : Extractor F :=
  let file := p.resources.map fun name =>
    let shared := s.storeOf name
    (⟨shared.store.loaderFailingAt shared.failing (.other "disk offline"), p.fileName⟩ :
      Resource.PropertyFile)
  (⟨s.metadataOf p.metadata, file, defaults⟩ : DeclaredSource F).extractor

/-- The accesses that fetching a node leads to, where `kind` is the short name of the kind. -/
def DeclarationPlan.accesses (p : DeclarationPlan) (kind : String) : Node → List String
  | .defaults => []
  | .package name =>
    if p.resources.isSome then [kind ++ " load " ++ Resource.pathOf p.fileName name] else []
  | .type declared => [kind ++ " type " ++ declared.name]
  | .member m => [kind ++ " member " ++ m.text]

/-- The accesses to a script that fetching a node leads to. -/
def scriptAccesses : Node → List String
  | .defaults => ["script default"]
  | .package name => ["script packages " ++ name]
  | .type declared => ["script types " ++ declared.name]
  | .member m => ["script members " ++ m.text]

namespace ExtractorPlan

/-- The kind of fragments that a plan is for. -/
def kind : ExtractorPlan → Kind
  | .sdk .. => .sdk
  | .resources .. => .resources
  | .runtime .. => .runtime
  | .trail => .trail
  | .text _ => .text
  | .number _ => .number

/-- The extractor of a plan, reading what the sources hold. -/
def extractor (s : Sources) : (p : ExtractorPlan) → Extractor p.kind.FragmentType
  | .sdk plan defaults => (plan.extractor s defaults : Extractor SdkChoice)
  | .resources plan defaults => (plan.extractor s defaults : Extractor ResourceLookup)
  | .runtime plan defaults => (plan.extractor s defaults : Extractor RuntimeSetup)
  | .trail => Fixture.trailExtractor
  | .text script => (s.scriptOf script).extractor String
  | .number script => (s.scriptOf script).extractor UInt32

/-- The accesses to sources that fetching a node leads to. -/
def accesses : ExtractorPlan → Node → List String
  | .sdk plan _, node => plan.accesses "sdk" node
  | .resources plan _, node => plan.accesses "resources" node
  | .runtime plan _, node => plan.accesses "runtime" node
  | .trail, _ => []
  | .text _, node => scriptAccesses node
  | .number _, node => scriptAccesses node

end ExtractorPlan

/-- A resolver of a session: its extractors are made from plans at each resolution, and the numbers
of the registrations stay the same. -/
structure SessionResolver where
  cache : String
  root : Option String
  firstId : Nat
  plans : List ExtractorPlan

namespace SessionResolver

/-- Registers the extractors of plans one after another. -/
def register (s : Sources) :
    List ExtractorPlan → ResolverBuilder Kind → Except Failure (ResolverBuilder Kind)
  | [], b => .ok b
  | p :: rest, b =>
    match b.register p.kind (p.extractor s) with
    | .error failure => .error failure
    | .ok next => register s rest next

/-- The builder with all extractors registered. -/
def builder (r : SessionResolver) (s : Sources) : Except Failure (ResolverBuilder Kind) :=
  register s r.plans ((ResolverBuilder.start r.firstId).withRoot r.root)

/-- The accesses that fetching a node for a kind leads to. -/
def accesses (r : SessionResolver) (fetch : Kind × Node) : List String :=
  (r.plans.filter (·.kind = fetch.1)).flatMap (·.accesses fetch.2)

/-- What the extractor of trails has seen of the nodes fetched, if the resolver has one. -/
def trail? (r : SessionResolver) (fetched : List (Kind × Node)) : Option (List String) :=
  if r.plans.any (·.kind = .trail) then
    some ((fetched.filter (·.1 = .trail)).map fun fetch => Fixture.label fetch.2)
  else none

end SessionResolver

/-- Everything that a session holds. -/
structure Session where
  sources : Sources
  caches : Table String (Cache Kind)
  resolvers : Table String SessionResolver
  nextId : Nat

/-- What a resolution of a session answers. -/
structure SessionAnswer where
  outcome : Except Failure (Configuration Kind)
  /-- The accesses to sources, in order. -/
  accesses : List String
  /-- The labels that an extractor of trails has seen. -/
  trail : Option (List String)
  stats : CacheStats
  /-- The summary of the resolver after the resolution. -/
  summary : String

namespace Session

/-- The session that holds nothing. -/
def empty : Session := ⟨⟨.empty, .empty, .empty⟩, .empty, .empty, 0⟩

/-- The cache of a name. -/
def cacheOf (s : Session) (name : String) : Cache Kind :=
  (s.caches.get? name).getD .empty

/-- The session with more blobs of types and members under a name. -/
def addMetadata (s : Session) (name : String) (types : List (String × Blob))
    (members : List ((String × String) × Blob)) : Session :=
  let withTypes := types.foldl (fun m t => m.insertType t.1 t.2) (s.sources.metadataOf name)
  let withAll := members.foldl (fun m e => m.insertMember e.1.1 e.1.2 e.2) withTypes
  { s with sources := { s.sources with metadata := s.sources.metadata.insert name withAll } }

/-- The session with more texts in the store of a name and, if given, another list of failing paths.
-/
def addResources (s : Session) (name : String) (files : List (String × String))
    (failing : Option (List String)) : Session :=
  let shared := s.sources.storeOf name
  let store := files.foldl (fun st f => st.insert f.1 f.2) shared.store
  let next : SharedStore := ⟨store, failing.getD shared.failing⟩
  { s with sources := { s.sources with stores := s.sources.stores.insert name next } }

/-- The session with another script under a name. -/
def setScript (s : Session) (name : String) (script : Fixture.Script) : Session :=
  { s with sources := { s.sources with scripts := s.sources.scripts.insert name script } }

/-- The session with a resolver made from plans under a name, and the builder it was made with. When
two plans are for one kind there is no resolver. -/
def addResolver (s : Session) (name cache : String) (root : Option String)
    (plans : List ExtractorPlan) : Except Failure (ResolverBuilder Kind × Session) :=
  let resolver : SessionResolver := ⟨cache, root, s.nextId, plans⟩
  match resolver.builder s.sources with
  | .error failure => .error failure
  | .ok b => .ok (b, { s with resolvers := s.resolvers.insert name resolver, nextId := b.nextId })

/-- Resolves a target with the resolver of a name. -/
def resolve (s : Session) (name : String) (target : Target) : SessionAnswer × Session :=
  let planned := (s.resolvers.get? name).getD ⟨"", none, s.nextId, []⟩
  let resolver : Resolver Kind :=
    match planned.builder s.sources with
    | .ok b => b.build
    | .error _ => ⟨planned.root, []⟩
  let resolution := resolver.resolve (s.cacheOf planned.cache) target
  (⟨resolution.outcome, resolution.fetched.flatMap planned.accesses,
      planned.trail? resolution.fetched, resolution.cache.stats,
      resolver.summary resolution.cache⟩,
    { s with caches := s.caches.insert planned.cache resolution.cache })

end Session

end Heritage
