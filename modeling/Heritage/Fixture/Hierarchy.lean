import Heritage.Session
import Heritage.Settings.Basic

/-!
# A sample hierarchy

A few types of one package whose declarations cover the ways in which fragments are inherited. The
first type declares every field, and its overriding member declares them again; the second declares
nothing itself. Two types only override qualifiers, one overrides all members of the first type, and
one extends that and adds shadows. Every type inherits three members: one without metadata, one with
an empty object, and one that declares everything.
-/

namespace Heritage.Fixture

/-- The package of all types. -/
def samplePackage : String := "org.example.plugins"

/-- The full name of a type. -/
def qualified (simple : String) : String :=
  samplePackage ++ "." ++ simple

/-- The simple names of the types on the lineage of a type, the most basic one first. -/
def lineageNames (simple : String) : List String :=
  if simple = "Test1A" then ["Test1", "Test1A"]
  else if simple = "Test2A" then ["Test2", "Test2A"]
  else if simple = "Test1B" then ["Test1", "Test1B"]
  else if simple = "Test1C" then ["Test1", "Test1B", "Test1C"]
  else [simple]

/-- The lineage of a type. -/
def sampleLineage (simple : String) : List DeclaredType :=
  (lineageNames simple).map fun name => .ofName (qualified name)

/-- Whether a type declares all members itself. -/
def overridesMembers (name : String) : Bool :=
  name = qualified "Test1" || name = qualified "Test2" || name = qualified "Test1B"

/-- The target for a member of a type. The member is declared by the most derived type that
overrides it, and by the most basic one if none does. -/
def sampleTarget (simple member : String) : Target :=
  let lineage := sampleLineage simple
  let names := lineage.map DeclaredType.name
  let owner := (names.reverse.find? overridesMembers).or names.head?
  ⟨lineage, ⟨owner.getD "", member⟩⟩

/-- An object with texts, and lists of texts behind them. -/
def declaration (levels : List Int) (texts : List (String × String))
    (lists : List (String × List String)) : Blob :=
  .ofFields ((if levels = [] then [] else [("sdk", Blob.array (levels.map .integer))]) ++
    texts.map (fun t => (t.1, Blob.text t.2)) ++
    lists.map fun l => (l.1, Blob.array (l.2.map .text)))

/-- The blobs of the types. -/
def sampleTypes : List (String × Blob) :=
  [("Test1", declaration [1]
      [("manifest", "foo"), ("application", "org.example.TestFakeApp"), ("qualifiers", "from-test")]
      [("shadows", [qualified "Test1"]), ("instrumentedPackages", ["com.example.test1"])]),
    ("Test1A", declaration [] [("qualifiers", "from-subclass")] []),
    ("Test2A", declaration [] [("qualifiers", "from-subclass")] []),
    ("Test1C", declaration [] [("qualifiers", "from-class6")]
      [("shadows", [qualified "Test1C"]), ("instrumentedPackages", ["com.example.test6"])])]

/-- The blobs of the members. -/
def sampleMembers : List ((String × String) × Blob) :=
  [(("Test1", "withOverrideAnnotation"), declaration [9]
      [("manifest", "furf"), ("application", "org.example.TestApplication"),
        ("qualifiers", "from-method")]
      [("shadows", [qualified "Test2"]), ("instrumentedPackages", ["com.example.method1"])]),
    (("Test2", "withOverrideAnnotation"), declaration [9]
      [("manifest", "furf"), ("application", "org.example.TestFakeApp"),
        ("qualifiers", "from-method")]
      [("shadows", [qualified "Test1"]), ("instrumentedPackages", ["com.example.method2"])]),
    (("Test1B", "withOverrideAnnotation"), declaration [14] [("qualifiers", "from-method5")]
      [("shadows", [qualified "Test1B"]), ("instrumentedPackages", ["com.example.method5"])]),
    (("Test1", "withDefaultsAnnotation"), .object []),
    (("Test2", "withDefaultsAnnotation"), .object []),
    (("Test1B", "withDefaultsAnnotation"), .object [])]

/-- The metadata of all types and members. -/
def sampleMetadata : Metadata :=
  sampleMembers.foldl (fun m e => m.insertMember (qualified e.1.1) e.1.2 e.2)
    (sampleTypes.foldl (fun m t => m.insertType (qualified t.1) t.2) .empty)

/-- The settings of the sample: property files have a name of their own. -/
def sampleSettings : Settings :=
  { Settings.defaults with propertiesFile := "robolectric.properties" }

/-- The default lookup of resources. -/
def sampleLookup : ResourceLookup :=
  { ResourceLookup.empty with manifest := some "AndroidManifest.xml" }

/-- The default set-up of the runtime. -/
def sampleSetup : RuntimeSetup :=
  { RuntimeSetup.empty with application := some "org.example.DefaultApplication" }

/-- The resolver of the sample over property resources and default fragments. -/
def sampleResolver (store : Resource.Store) (lookup : ResourceLookup) (setup : RuntimeSetup) :
    Except Failure (Resolver Kind) := do
  let file := some (sampleSettings.propertyFile store.loader)
  let start := (ResolverBuilder.start 0).withRoot sampleSettings.platformRoot
  let sdk : DeclaredSource SdkChoice := ⟨sampleMetadata, file, .empty⟩
  let resources : DeclaredSource ResourceLookup := ⟨sampleMetadata, file, lookup⟩
  let runtime : DeclaredSource RuntimeSetup := ⟨sampleMetadata, file, setup⟩
  let withSdk ← start.register Kind.sdk sdk.extractor
  let withResources ← withSdk.register Kind.resources resources.extractor
  let withRuntime ← withResources.register Kind.runtime runtime.extractor
  return withRuntime.build

/-- The configuration of a member of the sample, resolved with an empty cache. -/
def sampleConfiguration (store : Resource.Store) (lookup : ResourceLookup) (setup : RuntimeSetup)
    (target : Target) : Except Failure (Configuration Kind) := do
  let resolver ← sampleResolver store lookup setup
  (resolver.resolve .empty target).outcome

end Heritage.Fixture
