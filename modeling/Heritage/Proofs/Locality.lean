import Heritage.Proofs.Uncached

/-!
# Kinds that are declared side by side

Blobs and property files declare several kinds at once, each under keys of its own. The reader of a
kind looks at no other keys, so whatever stands there can neither change what it reads nor keep it
from reading.

* `DeclaredKind.readsOnly`: what is read from an object or a property set follows from the keys of
  the kind, the first fault included;
* `DeclaredSource.contribution_eq`: so does the contribution of a node;
* `declared_kinds_isolated`: and so does the outcome of a resolution.

This is about objects. A blob that is no object is the same to all kinds, and an array is read by
position.
-/

namespace Heritage

/-! ## What readers look at -/

/-- Property sets with the same values of some keys. -/
def Properties.AgreeOn (keys : List String) (p q : Properties) : Prop :=
  ∀ key ∈ keys, p.get? key = q.get? key

namespace Properties.AgreeOn

variable {keys : List String} {p q : Properties} {key : String} {α : Type}

theorem string?_eq (h : p.AgreeOn keys q) (hKey : key ∈ keys) : p.string? key = q.string? key := by
  rw [string?, string?, h key hKey]

theorem list?_eq (h : p.AgreeOn keys q) (hKey : key ∈ keys) : p.list? key = q.list? key := by
  rw [list?, list?, h key hKey]

theorem value?_eq (h : p.AgreeOn keys q) (hKey : key ∈ keys) (reader : ValueReader α) :
    p.value? reader key = q.value? reader key := by
  rw [value?, value?, h.string?_eq hKey]

theorem values?_eq (h : p.AgreeOn keys q) (hKey : key ∈ keys) (reader : ValueReader α) :
    p.values? reader key = q.values? reader key := by
  rw [values?, values?, h.list?_eq hKey]

end Properties.AgreeOn

/-- Fields of objects with the same values of some keys. -/
def Blob.AgreeOn (keys : List String) (fields others : List (String × Blob)) : Prop :=
  ∀ key ∈ keys, Table.find? key fields = Table.find? key others

theorem Blob.AgreeOn.field_eq {keys : List String} {fields others : List (String × Blob)}
    (h : Blob.AgreeOn keys fields others) {key : String} (hKey : key ∈ keys) {α : Type}
    (reader : Reader α) : field fields key reader = field others key reader := by
  rw [field, field, h key hKey]

/-- Declarations are read from some keys only. -/
structure Declarable.ReadsOnly (F : Type) [Declarable F] (keys : List String) : Prop where
  ofProperties_eq : ∀ p q : Properties, p.AgreeOn keys q →
    ofProperties (F := F) p = ofProperties q
  ofObject_eq : ∀ fields others : List (String × Blob), Blob.AgreeOn keys fields others →
    ofBlob (F := F) (.object fields) = ofBlob (.object others)

/-! ## The keys of the kinds -/

/-- The kinds that are declared by properties and blobs. -/
inductive DeclaredKind where
  | sdk
  | resources
  | runtime
  deriving DecidableEq, Repr

namespace DeclaredKind

def kind : DeclaredKind → Kind
  | .sdk => .sdk
  | .resources => .resources
  | .runtime => .runtime

/-- The keys that a kind is declared under. -/
def keys : DeclaredKind → List String
  | .sdk => ["sdk", "minSdk", "maxSdk"]
  | .resources => ["manifest", "resourceDir", "assetDir", "packageName", "libraries"]
  | .runtime => ["qualifiers", "application", "shadows", "instrumentedPackages"]

instance : (d : DeclaredKind) → Declarable (Fragment d.kind)
  | .sdk => inferInstanceAs (Declarable SdkChoice)
  | .resources => inferInstanceAs (Declarable ResourceLookup)
  | .runtime => inferInstanceAs (Declarable RuntimeSetup)

theorem keys_disjoint {d e : DeclaredKind} (h : e ≠ d) : ∀ key ∈ d.keys, key ∉ e.keys := by
  revert h
  cases d <;> cases e <;> decide

theorem sdk_readsOnly : Declarable.ReadsOnly SdkChoice sdk.keys where
  ofProperties_eq p q h := by
    show SdkChoice.Declaration.ofProperties p = SdkChoice.Declaration.ofProperties q
    unfold SdkChoice.Declaration.ofProperties
    rw [h.values?_eq (by decide), h.value?_eq (by decide), h.value?_eq (by decide)]
  ofObject_eq fields others h := by
    show SdkChoice.Declaration.ofFields fields = SdkChoice.Declaration.ofFields others
    unfold SdkChoice.Declaration.ofFields
    rw [h.field_eq (by decide), h.field_eq (by decide), h.field_eq (by decide)]

theorem resources_readsOnly : Declarable.ReadsOnly ResourceLookup resources.keys where
  ofProperties_eq p q h := by
    refine congrArg Except.ok ?_
    unfold ResourceLookup.Declaration.ofProperties
    rw [h.string?_eq (by decide), h.string?_eq (by decide), h.string?_eq (by decide),
      h.string?_eq (by decide), h.list?_eq (by decide)]
  ofObject_eq fields others h := by
    show ResourceLookup.Declaration.ofFields fields = ResourceLookup.Declaration.ofFields others
    unfold ResourceLookup.Declaration.ofFields
    rw [h.field_eq (by decide), h.field_eq (by decide), h.field_eq (by decide),
      h.field_eq (by decide), h.field_eq (by decide)]

theorem runtime_readsOnly : Declarable.ReadsOnly RuntimeSetup runtime.keys where
  ofProperties_eq p q h := by
    refine congrArg Except.ok ?_
    unfold RuntimeSetup.Declaration.ofProperties
    rw [h.string?_eq (by decide), h.string?_eq (by decide), h.list?_eq (by decide),
      h.list?_eq (by decide)]
  ofObject_eq fields others h := by
    show RuntimeSetup.Declaration.ofFields fields = RuntimeSetup.Declaration.ofFields others
    unfold RuntimeSetup.Declaration.ofFields
    rw [h.field_eq (by decide), h.field_eq (by decide), h.field_eq (by decide),
      h.field_eq (by decide)]

theorem readsOnly (d : DeclaredKind) : Declarable.ReadsOnly (Fragment d.kind) d.keys := by
  cases d with
  | sdk => exact sdk_readsOnly
  | resources => exact resources_readsOnly
  | runtime => exact runtime_readsOnly

end DeclaredKind

/-! ## Sources that agree on keys -/

/-- Blobs that cannot be told apart through some keys: the same, or two objects. -/
inductive Blob.Alike (keys : List String) : Option Blob → Option Blob → Prop
  | same (b : Option Blob) : Alike keys b b
  | objects {fields others : List (String × Blob)} (h : Blob.AgreeOn keys fields others) :
      Alike keys (some (.object fields)) (some (.object others))

/-- Answers to the request for a property set that cannot be told apart through some keys. -/
inductive Properties.Alike (keys : List String) :
    Except Failure (Option Properties) → Except Failure (Option Properties) → Prop
  | same (found : Except Failure (Option Properties)) : Alike keys found found
  | sets {p q : Properties} (h : p.AgreeOn keys q) : Alike keys (.ok (some p)) (.ok (some q))

namespace DeclaredSource

variable {F : Type} {s s' : DeclaredSource F} {keys : List String}

/-- The property set that a source finds for a package. -/
def properties? (s : DeclaredSource F) (package : String) : Except Failure (Option Properties) :=
  match s.properties with
  | none => .ok none
  | some file => file.properties? package

/-- Two sources hold the same at a node as far as some keys go. -/
def AgreesAt (keys : List String) (s s' : DeclaredSource F) : Node → Prop
  | .defaults => s.defaults = s'.defaults
  | .package name => Properties.Alike keys (s.properties? name) (s'.properties? name)
  | .type declared => Blob.Alike keys (s.metadata.ofType? declared) (s'.metadata.ofType? declared)
  | .member m => Blob.Alike keys (s.metadata.ofMember? m) (s'.metadata.ofMember? m)

variable [Declarable F]

theorem ofPackage_eq (s : DeclaredSource F) (package : String) :
    s.ofPackage package =
      match s.properties? package with
      | .error failure => .error failure
      | .ok none => .ok none
      | .ok (some p) => (ofProperties package p).map some := by
  unfold ofPackage properties?
  cases s.properties <;> rfl

theorem ofBlob?_eq (hRead : Declarable.ReadsOnly F keys) {b b' : Option Blob}
    (h : Blob.Alike keys b b') (node : String) :
    ofBlob? (F := F) node b = ofBlob? node b' := by
  cases h with
  | same => rfl
  | objects h =>
    rw [ofBlob?, ofBlob?, ofBlob, ofBlob, hRead.ofObject_eq _ _ h]

theorem contribution_eq (hRead : Declarable.ReadsOnly F keys) {node : Node}
    (h : AgreesAt keys s s' node) :
    s.extractor.contribution node = s'.extractor.contribution node := by
  cases node with
  | defaults => rfl
  | package name =>
    show s.ofPackage name = s'.ofPackage name
    have hSets : Properties.Alike keys (s.properties? name) (s'.properties? name) := h
    rw [ofPackage_eq, ofPackage_eq]
    generalize s.properties? name = found at hSets
    generalize s'.properties? name = found' at hSets
    cases hSets with
    | same => rfl
    | sets hSets =>
      have hSame := hRead.ofProperties_eq _ _ hSets
      simp only [ofProperties, hSame]
  | type declared => exact ofBlob?_eq hRead h declared.name
  | member m => exact ofBlob?_eq hRead h m.text

theorem step_of_agrees (hRead : Declarable.ReadsOnly F keys) {node : Node}
    (h : AgreesAt keys s s' node) (parent : F) :
    s.extractor.step parent node = s'.extractor.step parent node := by
  have hMerge : s.extractor.merge = s'.extractor.merge := rfl
  exact Extractor.step_congr hMerge (contribution_eq hRead h) parent

end DeclaredSource

/-! ## Resolutions -/

theorem Resolution.get_of_outcomeOf {κ : Type} [FragmentFamily κ] [DecidableEq κ]
    {resolution : Resolution κ} {k : κ} {outcome : Except Failure (Fragment k)}
    (h : resolution.outcomeOf k = some outcome) :
    resolution.outcome.map (·.get k) = .ok outcome := by
  unfold outcomeOf at h
  cases hOutcome : resolution.outcome with
  | error failure =>
    rw [hOutcome] at h
    cases h
  | ok configuration =>
    have hFound : Configuration.find? k configuration.entries = some outcome := by
      rw [hOutcome] at h
      exact h
    refine congrArg Except.ok ?_
    show (Configuration.find? k configuration.entries).getD _ = outcome
    rw [hFound]
    rfl

/-- With an empty cache, the fragment of a registered kind is the fold over the distinct nodes. -/
theorem World.get_eq_fold {κ : Type} [FragmentFamily κ] [DecidableEq κ] {events : List (Event κ)}
    {b : ResolverBuilder κ} (hb : b ∈ (World.empty.run events).builders) {r : Registration κ}
    (hr : r ∈ b.registrations) (hName : r.extractor.ByName) {target : Target} {c : Chain}
    (hc : Chain.ofTarget b.root target = .ok c) :
    (b.build.resolve .empty target).outcome.map (·.get r.kind) =
      .ok (r.extractor.foldFrom r.extractor.initial c.nodes.eraseDups) := by
  have hKinds : b.build.kinds.Nodup := (numbered_run events).kinds b hb
  have hSound : r.Sound r.extractor .empty := by
    intro place entry hEntry
    cases hEntry
  exact Resolution.get_of_outcomeOf
    (Resolver.outcomeOf_eq_fold_distinct hc hKinds hr Cache.wellKinded_empty hName hSound)

/-- Two resolvers, in one world or in two, give the same for a kind if their sources of it start
with the same and make the same of every fragment at all nodes of the chain. -/
theorem get_eq_of_steps {d : DeclaredKind} {events events' : List (Event Kind)}
    {b b' : ResolverBuilder Kind} (hb : b ∈ (World.empty.run events).builders)
    (hb' : b' ∈ (World.empty.run events').builders) (hRoot : b.root = b'.root) {id id' : Nat}
    {s s' : DeclaredSource (Fragment d.kind)} (hs : ⟨id, d.kind, s.extractor⟩ ∈ b.registrations)
    (hs' : ⟨id', d.kind, s'.extractor⟩ ∈ b'.registrations) {target : Target} {c : Chain}
    (hc : Chain.ofTarget b.root target = .ok c) (hStart : s.defaults = s'.defaults)
    (hSteps : ∀ node ∈ c.nodes, ∀ parent,
      s.extractor.step parent node = s'.extractor.step parent node) :
    (b.build.resolve .empty target).outcome.map (·.get d.kind) =
      (b'.build.resolve .empty target).outcome.map (·.get d.kind) := by
  have hFold : s.extractor.foldFrom s.defaults c.nodes.eraseDups =
      s'.extractor.foldFrom s'.defaults c.nodes.eraseDups := by
    rw [hStart]
    exact Extractor.foldFrom_congr_of_step
      (fun node hNode => hSteps node (List.mem_eraseDups.mp hNode)) s'.defaults
  have hLeft := World.get_eq_fold hb hs s.extractor_byName hc
  have hRight := World.get_eq_fold hb' hs' s'.extractor_byName (hRoot ▸ hc)
  exact hLeft.trans ((congrArg Except.ok hFold).trans hRight.symm)

/-- Two resolvers, in one world or in two, give the same for a kind if their sources of it agree on
its keys at all nodes of the chain. -/
theorem get_eq_of_agree {d : DeclaredKind} {events events' : List (Event Kind)}
    {b b' : ResolverBuilder Kind} (hb : b ∈ (World.empty.run events).builders)
    (hb' : b' ∈ (World.empty.run events').builders) (hRoot : b.root = b'.root) {id id' : Nat}
    {s s' : DeclaredSource (Fragment d.kind)} (hs : ⟨id, d.kind, s.extractor⟩ ∈ b.registrations)
    (hs' : ⟨id', d.kind, s'.extractor⟩ ∈ b'.registrations) {target : Target}
    (hAgree : ∀ c, Chain.ofTarget b.root target = .ok c →
      ∀ node ∈ c.nodes, DeclaredSource.AgreesAt d.keys s s' node) :
    (b.build.resolve .empty target).outcome.map (·.get d.kind) =
      (b'.build.resolve .empty target).outcome.map (·.get d.kind) := by
  cases hc : Chain.ofTarget b.root target with
  | error fault =>
    -- without a chain nothing is read, and both resolutions fail as a whole
    have hc' : Chain.ofTarget b'.root target = .error fault := hRoot ▸ hc
    have hFails : ∀ resolver : Resolver Kind, Chain.ofTarget resolver.root target = .error fault →
        (resolver.resolve .empty target).outcome =
          .error (.ambiguous target.text fault.message) := by
      intro resolver hFault
      rw [Resolver.resolve, hFault]
    rw [hFails b.build hc, hFails b'.build hc']
  | ok c =>
    have hNodes := hAgree c hc
    refine get_eq_of_steps hb hb' hRoot hs hs' hc (hNodes .defaults List.mem_cons_self) ?_
    intro node hNode parent
    exact DeclaredSource.step_of_agrees d.readsOnly (hNodes node hNode) parent

/-- Declared kinds have no keys in common. What a kind finds at a node, a failure included, follows
from what its own keys say there, and so does what a resolution in an empty cache gives for it. -/
theorem declared_kinds_isolated (d : DeclaredKind) :
    (∀ e : DeclaredKind, e ≠ d → ∀ key ∈ d.keys, key ∉ e.keys) ∧
    (∀ (s s' : DeclaredSource (Fragment d.kind)) (node : Node),
      DeclaredSource.AgreesAt d.keys s s' node →
        s.extractor.contribution node = s'.extractor.contribution node) ∧
    ∀ (events events' : List (Event Kind)) (b b' : ResolverBuilder Kind) (id id' : Nat)
      (s s' : DeclaredSource (Fragment d.kind)) (target : Target),
      b ∈ (World.empty.run events).builders → b' ∈ (World.empty.run events').builders →
      b.root = b'.root →
      ⟨id, d.kind, s.extractor⟩ ∈ b.registrations → ⟨id', d.kind, s'.extractor⟩ ∈ b'.registrations →
      (∀ c, Chain.ofTarget b.root target = .ok c →
        ∀ node ∈ c.nodes, DeclaredSource.AgreesAt d.keys s s' node) →
      (b.build.resolve .empty target).outcome.map (·.get d.kind) =
        (b'.build.resolve .empty target).outcome.map (·.get d.kind) := by
  refine ⟨?_, ?_, ?_⟩
  · intro e hOther
    exact DeclaredKind.keys_disjoint hOther
  · intro s s' node hAgree
    exact DeclaredSource.contribution_eq d.readsOnly hAgree
  · intro events events' b b' id id' s s' target hb hb' hRoot hs hs' hAgree
    exact get_eq_of_agree hb hb' hRoot hs hs' hAgree

namespace Fixture

/-- Qualifiers of a package and of a type, each beside a level of the platform. -/
def mixedSource (F : Type) (defaults : F) (level : Blob) (text : String) : DeclaredSource F where
  metadata := Metadata.empty.insertType "org.Base"
    (.object [("minSdk", level), ("qualifiers", .text "+land")])
  properties := some ⟨(Resource.Store.ofList [("org/config.properties", text)]).loader,
    Resource.defaultFileName⟩
  defaults := defaults

def mixedEvents (level : Blob) (text : String) : List (Event Kind) :=
  [.start, .register 0 .sdk (mixedSource SdkChoice .empty level text).extractor,
    .register 0 .resources (mixedSource ResourceLookup .empty level text).extractor,
    .register 0 .runtime (mixedSource RuntimeSetup .empty level text).extractor]

def mixedBuilder (level : Blob) (text : String) : ResolverBuilder Kind where
  root := none
  registrations := [⟨0, .sdk, (mixedSource SdkChoice .empty level text).extractor⟩,
    ⟨1, .resources, (mixedSource ResourceLookup .empty level text).extractor⟩,
    ⟨2, .runtime, (mixedSource RuntimeSetup .empty level text).extractor⟩]
  nextId := 3

theorem mixedEvents_builders (level : Blob) (text : String) :
    (World.empty.run (mixedEvents level text)).builders = [mixedBuilder level text] := rfl

/-- Two such sources differ in nothing but levels. -/
theorem mixedSource_agreesAt {F : Type} (defaults : F) {keys : List String}
    (hKeys : "minSdk" ∉ keys) (level level' : Blob) {text text' : String}
    (hText : (Properties.parse text).AgreeOn keys (.parse text')) (node : Node) :
    DeclaredSource.AgreesAt keys (mixedSource F defaults level text)
      (mixedSource F defaults level' text') node := by
  cases node with
  | defaults => rfl
  | package name =>
    have hFound : ∀ level text, (mixedSource F defaults level text).properties? name =
        .ok (if Resource.locate "org/config.properties" =
            Resource.locate (Resource.pathOf Resource.defaultFileName name)
          then some (.parse text) else none) := by
      intro level text
      have hGet := Resource.Store.get?_insert .empty "org/config.properties"
        (Resource.pathOf Resource.defaultFileName name) text
      refine (congrArg (fun found => Except.ok (Option.map Properties.parse found)) hGet).trans ?_
      rw [apply_ite (Option.map Properties.parse)]
      rfl
    show Properties.Alike keys _ _
    rw [hFound, hFound]
    split
    · exact .sets hText
    · exact .same _
  | type declared =>
    have hFound : ∀ level text, (mixedSource F defaults level text).metadata.ofType? declared =
        if "org.Base" = declared.name
          then some (.object [("minSdk", level), ("qualifiers", .text "+land")]) else none :=
      fun level _ => Table.get?_insert .empty "org.Base" declared.name _
    show Blob.Alike keys _ _
    rw [hFound, hFound]
    split
    · refine .objects fun key hKey => ?_
      have hOther : "minSdk" ≠ key := fun hSame => hKeys (hSame ▸ hKey)
      simp only [Table.find?, if_neg hOther]
    · exact .same _
  | member m => exact .same _

end Fixture

/-- A level that cannot be read, in a blob and in a property file, is nothing to the qualifiers. -/
theorem declared_kinds_isolated_of_unreadable_levels :
    let b := Fixture.mixedBuilder (.integer 19) "qualifiers: en\nmaxSdk: 30"
    let b' := Fixture.mixedBuilder (.text "low") "qualifiers: en\nmaxSdk: high"
    (b.build.resolve .empty Fixture.smallTarget).outcome.map (·.isComplete) = .ok true ∧
      (b'.build.resolve .empty Fixture.smallTarget).outcome.map (·.isComplete) = .ok false ∧
      (b.build.resolve .empty Fixture.smallTarget).outcome.map (·.get Kind.runtime) =
        (b'.build.resolve .empty Fixture.smallTarget).outcome.map (·.get Kind.runtime) := by
  intro b b'
  refine ⟨rfl, rfl, ?_⟩
  have hMem : ∀ level text, Fixture.mixedBuilder level text ∈
      (World.empty.run (Fixture.mixedEvents level text)).builders := by
    intro level text
    rw [Fixture.mixedEvents_builders]
    exact List.mem_cons_self
  have hRegistered : ∀ level text,
      ⟨2, .runtime, (Fixture.mixedSource RuntimeSetup .empty level text).extractor⟩ ∈
        (Fixture.mixedBuilder level text).registrations :=
    fun level text => .tail _ (.tail _ (.head _))
  have hText : (Properties.parse "qualifiers: en\nmaxSdk: 30").AgreeOn DeclaredKind.runtime.keys
      (.parse "qualifiers: en\nmaxSdk: high") := by
    unfold Properties.AgreeOn
    decide
  obtain ⟨-, -, hResolved⟩ := declared_kinds_isolated .runtime
  exact hResolved _ _ b b' 2 2 _ _ Fixture.smallTarget (hMem _ _) (hMem _ _) rfl
    (hRegistered _ _) (hRegistered _ _) fun _ _ node _ =>
      Fixture.mixedSource_agreesAt RuntimeSetup.empty (by decide) _ _ hText node

end Heritage
