import Heritage.Proofs.DirectoryLoader
import Heritage.Proofs.Locality

/-!
# Declarations that say nothing

A place may have a blob or a property file with nothing in it for a kind: other kinds have their
keys there, a null stands for a field, a file has only comments. To that kind the place is the same
as one without blob and file.

* `DeclaredKind.neutral`: such a declaration can always be read, and what it contributes leaves
  every fragment as it is when it is laid over it;
* `DeclaredSource.step_of_extends`: so the place leaves what is handed down to it as it is;
* `Blob.extended_of_find?`, `Properties.extended_of_get?`, `Properties.extended_of_addFile`: how
  blobs are added to a table, and property files to a store and below a directory;
* `silent_declarations_neutral`: a resolution gives what it would give without the declaration, a
  failure included.

Fragments are taken as they are: a list may have an entry twice, and levels may stand beside bounds.
-/

namespace Heritage

/-! ## What an object declares -/

namespace Blob

/-- The value that an object declares under a key. A null declares nothing. -/
def declared? (key : String) (fields : List (String × Blob)) : Option Blob :=
  match Table.find? key fields with
  | some .null => none
  | found => found

variable {fields others : List (String × Blob)} {key : String} {α : Type}

theorem field_eq (fields : List (String × Blob)) (key : String) (reader : Reader α) :
    field fields key reader =
      match declared? key fields with
      | none => .ok none
      | some b => (reader b).map some := by
  unfold field declared?
  cases Table.find? key fields with
  | none => rfl
  | some b => cases b <;> rfl

theorem field_of_undeclared (h : declared? key fields = none) (reader : Reader α) :
    field fields key reader = .ok none := by
  rw [field_eq, h]

/-- Whether an object declares nothing under some keys. -/
def Silent (keys : List String) (fields : List (String × Blob)) : Prop :=
  ∀ key ∈ keys, declared? key fields = none

/-- Blobs of a place before and after a silent object is put there, or the same blob. -/
inductive Extended (keys : List String) : Option Blob → Option Blob → Prop
  | same (b : Option Blob) : Extended keys b b
  | silent {fields : List (String × Blob)} (h : Silent keys fields) :
      Extended keys none (some (.object fields))

end Blob

namespace Properties

/-- Whether a property set declares nothing under some keys. -/
def Silent (keys : List String) (p : Properties) : Prop :=
  ∀ key ∈ keys, p.get? key = none

variable {keys : List String} {p : Properties} {key : String}

theorem Silent.string?_eq (h : p.Silent keys) (hKey : key ∈ keys) : p.string? key = none := by
  rw [string?, h key hKey]
  rfl

theorem Silent.list?_eq (h : p.Silent keys) (hKey : key ∈ keys) : p.list? key = none := by
  rw [list?, h key hKey]
  rfl

/-- Answers to the request for a property set before and after a silent file is put there, or the
same answer. -/
inductive Extended (keys : List String) :
    Except Failure (Option Properties) → Except Failure (Option Properties) → Prop
  | same (found : Except Failure (Option Properties)) : Extended keys found found
  | silent {p : Properties} (h : p.Silent keys) : Extended keys (.ok none) (.ok (some p))

end Properties

/-! ## The kinds -/

/-- A declaration whose fragment changes nothing that it is laid over. -/
def Declarable.IsNeutral (F : Type) [Declarable F] (d : Declaration F) : Prop :=
  ∀ parent : F, overlay parent (ofDeclaration d) = parent

/-- What is silent about some keys is read as a declaration that changes nothing. -/
structure Declarable.Neutral (F : Type) [Declarable F] (keys : List String) : Prop where
  ofObject : ∀ fields, Blob.Silent keys fields →
    ∃ d, ofBlob (F := F) (.object fields) = .ok d ∧ IsNeutral F d
  ofProperties : ∀ p : Properties, p.Silent keys →
    ∃ d, ofProperties (F := F) p = .ok d ∧ IsNeutral F d

namespace DeclaredKind

theorem sdk_neutral : Declarable.Neutral SdkChoice sdk.keys where
  ofObject fields h := by
    refine ⟨⟨none, none, none⟩, ?_, SdkChoice.overlay_empty⟩
    show SdkChoice.Declaration.ofFields fields = _
    rw [SdkChoice.Declaration.ofFields, Blob.field_of_undeclared (h "maxSdk" (by decide)),
      Blob.field_of_undeclared (h "minSdk" (by decide)),
      Blob.field_of_undeclared (h "sdk" (by decide))]
    rfl
  ofProperties p h := by
    refine ⟨⟨none, none, none⟩, ?_, SdkChoice.overlay_empty⟩
    show SdkChoice.Declaration.ofProperties p = _
    rw [SdkChoice.Declaration.ofProperties, Properties.values?, Properties.value?,
      Properties.value?, h.list?_eq (by decide), h.string?_eq (by decide),
      h.string?_eq (by decide)]
    rfl

theorem resources_neutral : Declarable.Neutral ResourceLookup resources.keys where
  ofObject fields h := by
    refine ⟨⟨none, none, none, none, none⟩, ?_, ResourceLookup.overlay_empty⟩
    show ResourceLookup.Declaration.ofFields fields = _
    rw [ResourceLookup.Declaration.ofFields, Blob.field_of_undeclared (h "assetDir" (by decide)),
      Blob.field_of_undeclared (h "libraries" (by decide)),
      Blob.field_of_undeclared (h "manifest" (by decide)),
      Blob.field_of_undeclared (h "packageName" (by decide)),
      Blob.field_of_undeclared (h "resourceDir" (by decide))]
    rfl
  ofProperties p h := by
    refine ⟨⟨none, none, none, none, none⟩, congrArg Except.ok ?_, ResourceLookup.overlay_empty⟩
    rw [ResourceLookup.Declaration.ofProperties, h.string?_eq (by decide),
      h.string?_eq (by decide), h.string?_eq (by decide), h.string?_eq (by decide),
      h.list?_eq (by decide)]

theorem runtime_neutral : Declarable.Neutral RuntimeSetup runtime.keys where
  ofObject fields h := by
    refine ⟨⟨none, none, none, none⟩, ?_, RuntimeSetup.overlay_empty⟩
    show RuntimeSetup.Declaration.ofFields fields = _
    rw [RuntimeSetup.Declaration.ofFields, Blob.field_of_undeclared (h "application" (by decide)),
      Blob.field_of_undeclared (h "instrumentedPackages" (by decide)),
      Blob.field_of_undeclared (h "qualifiers" (by decide)),
      Blob.field_of_undeclared (h "shadows" (by decide))]
    rfl
  ofProperties p h := by
    refine ⟨⟨none, none, none, none⟩, congrArg Except.ok ?_, RuntimeSetup.overlay_empty⟩
    rw [RuntimeSetup.Declaration.ofProperties, h.string?_eq (by decide),
      h.string?_eq (by decide), h.list?_eq (by decide), h.list?_eq (by decide)]

theorem neutral (d : DeclaredKind) : Declarable.Neutral (Fragment d.kind) d.keys := by
  cases d with
  | sdk => exact sdk_neutral
  | resources => exact resources_neutral
  | runtime => exact runtime_neutral

end DeclaredKind

/-! ## Sources with more declarations -/

namespace DeclaredSource

variable {F : Type} [Declarable F] {s s' : DeclaredSource F} {keys : List String}

/-- Whether the second source has at a node what the first one has, or a silent declaration where
the first one has none. This is about what each node finds: a declaration that is added to one node
must not change what another one finds, see `Properties.extended_of_addFile`. -/
def Extends (keys : List String) (s s' : DeclaredSource F) : Node → Prop
  | .defaults => s.defaults = s'.defaults
  | .package name => Properties.Extended keys (s.properties? name) (s'.properties? name)
  | .type declared =>
    Blob.Extended keys (s.metadata.ofType? declared) (s'.metadata.ofType? declared)
  | .member m => Blob.Extended keys (s.metadata.ofMember? m) (s'.metadata.ofMember? m)

theorem apply_ofBlob?_of_extended (hNeutral : Declarable.Neutral F keys) {b b' : Option Blob}
    (h : Blob.Extended keys b b') (node : String) (parent : F) :
    (ofBlob? node b).map (s.extractor.apply parent) =
      (ofBlob? node b').map (s'.extractor.apply parent) := by
  cases h with
  | same => rfl
  | silent hSilent =>
    obtain ⟨d, hRead, hSame⟩ := hNeutral.ofObject _ hSilent
    rw [ofBlob?, ofBlob?, ofBlob, hRead]
    exact congrArg Except.ok (hSame parent).symm

theorem step_of_extends (hNeutral : Declarable.Neutral F keys) {node : Node}
    (h : Extends keys s s' node) (parent : F) :
    s.extractor.step parent node = s'.extractor.step parent node := by
  cases node with
  | defaults => rfl
  | package name =>
    have hSets : Properties.Extended keys (s.properties? name) (s'.properties? name) := h
    show (s.ofPackage name).map _ = (s'.ofPackage name).map _
    rw [ofPackage_eq, ofPackage_eq]
    generalize s.properties? name = found at hSets
    generalize s'.properties? name = found' at hSets
    cases hSets with
    | same => rfl
    | silent hSilent =>
      obtain ⟨d, hRead, hSame⟩ := hNeutral.ofProperties _ hSilent
      simp only [ofProperties, hRead]
      exact congrArg Except.ok (hSame parent).symm
  | type declared => exact apply_ofBlob?_of_extended hNeutral h declared.name parent
  | member m => exact apply_ofBlob?_of_extended hNeutral h m.text parent

end DeclaredSource

/-! ## Additions -/

theorem Blob.extended_of_find? {κ : Type} [DecidableEq κ] {table : Table κ Blob} {key : κ}
    (hNone : table.get? key = none) {keys : List String} {fields : List (String × Blob)}
    (hSilent : Blob.Silent keys fields) (other : κ) :
    Blob.Extended keys (table.get? other) ((table.insert key (.object fields)).get? other) := by
  rw [Table.get?_insert]
  split
  · rename_i hSame
    rw [← hSame, hNone]
    exact .silent hSilent
  · exact .same _

theorem Properties.extended_of_get? {store : Resource.Store} {path : String}
    (hNone : store.get? path = none) {keys : List String} {text : String}
    (hSilent : (Properties.parse text).Silent keys) (fileName package : String) :
    Properties.Extended keys
      (Resource.PropertyFile.properties? ⟨store.loader, fileName⟩ package)
      (Resource.PropertyFile.properties? ⟨(store.insert path text).loader, fileName⟩ package) := by
  have hFound : ∀ store : Resource.Store,
      Resource.PropertyFile.properties? ⟨store.loader, fileName⟩ package =
        .ok ((store.get? (Resource.pathOf fileName package)).map Properties.parse) := fun _ => rfl
  rw [hFound, hFound, Resource.Store.get?_insert]
  split
  · rename_i hSame
    have hNone' : store.get? (Resource.pathOf fileName package) = none := by
      rw [Resource.Store.get?, ← hSame]
      exact hNone
    rw [hNone']
    exact .silent hSilent
  · exact .same _

/-- Below a directory, folders may have to be made for a property file that is added. Packages with
another property file find what they found before even so. -/
theorem Properties.extended_of_addFile {t : Resource.Tree} (hTop : t.FolderAt [])
    {fileName added package : String} (hName : Resource.IsPlain fileName)
    (hNameNul : '\x00' ∉ fileName.toList) (hAdded : Resource.PlainPackage fileName added)
    (hPackage : Resource.PlainPackage fileName package)
    (hNone : t.loader (Resource.pathOf fileName added) = .ok none) {keys : List String}
    {text : String} (hSilent : (Properties.parse text).Silent keys) :
    Properties.Extended keys
      (Resource.PropertyFile.properties? ⟨t.loader, fileName⟩ package)
      (Resource.PropertyFile.properties?
        ⟨(t.addFile (Resource.pathOf fileName added) text.toUTF8).loader, fileName⟩ package) := by
  have hFound : ∀ t : Resource.Tree,
      Resource.PropertyFile.properties? ⟨t.loader, fileName⟩ package =
        (t.loader (Resource.pathOf fileName package)).map (·.map Properties.parse) := fun _ => rfl
  have hPath := Resource.plainPath_pathOf hName hNameNul hAdded.unslashed hAdded.nulFree
  obtain ⟨hHere, hElsewhere⟩ := Resource.Tree.loader_addFile hTop hPath
    (hAdded.components_eq hName) hAdded.fits hNone text
  rw [hFound, hFound]
  by_cases hFolders : Resource.filled added = Resource.filled package
  · have hSame : Resource.pathOf fileName added = Resource.pathOf fileName package :=
      congrArg (fun names : List String => Resource.push (names.foldl Resource.push "") fileName)
        hFolders
    rw [← hSame, hNone, hHere]
    exact .silent hSilent
  · rw [hElsewhere _
      (Resource.plainPath_pathOf hName hNameNul hPackage.unslashed hPackage.nulFree) hPackage.fits
      (hAdded.not_prefix hName hPackage hFolders)
      (hPackage.not_prefix hName hAdded (Ne.symm hFolders))]
    exact .same _

/-! ## Resolutions -/

/-- Let two sources of a kind differ in nothing but silent declarations, which the second one has at
nodes of a chain where the first one has no blob and no property file. From an empty cache, the
chain's target resolves to the same for that kind, be it a fragment or a failure. -/
theorem silent_declarations_neutral (d : DeclaredKind) {events events' : List (Event Kind)}
    {b b' : ResolverBuilder Kind} (hb : b ∈ (World.empty.run events).builders)
    (hb' : b' ∈ (World.empty.run events').builders) (hRoot : b.root = b'.root) {id id' : Nat}
    {s s' : DeclaredSource (Fragment d.kind)} (hs : ⟨id, d.kind, s.extractor⟩ ∈ b.registrations)
    (hs' : ⟨id', d.kind, s'.extractor⟩ ∈ b'.registrations) {target : Target} {c : Chain}
    (hc : Chain.ofTarget b.root target = .ok c)
    (hExtends : ∀ node ∈ c.nodes, s.Extends d.keys s' node) :
    (b.build.resolve .empty target).outcome.map (·.get d.kind) =
      (b'.build.resolve .empty target).outcome.map (·.get d.kind) := by
  refine get_eq_of_steps hb hb' hRoot hs hs' hc (hExtends .defaults List.mem_cons_self) ?_
  intro node hNode parent
  exact DeclaredSource.step_of_extends d.neutral (hExtends node hNode) parent

namespace Fixture

/-- Levels at one type and a bound in one property file, laid over levels that stand beside a bound.
-/
def sparseSource : DeclaredSource SdkChoice where
  metadata := Metadata.empty.insertType "org.Base" (.object [("sdk", .array [.integer 21])])
  properties := some ⟨(Resource.Store.ofList [("org/config.properties", "maxSdk: 30")]).loader,
    Resource.defaultFileName⟩
  defaults := ⟨[16], some 14, none⟩

/-- The fields of an object that declares no levels. -/
def silentFields : List (String × Blob) := [("manifest", .integer 1), ("sdk", .null)]

/-- The sparse source with silent declarations at a type, at the member and at the top level. -/
def paddedSource : DeclaredSource SdkChoice where
  metadata := (sparseSource.metadata.insertType "org.Leaf" (.object silentFields)).insertMember
    "org.Base" "runs" (.object [])
  properties := some ⟨((Resource.Store.ofList [("org/config.properties", "maxSdk: 30")]).insert
    "config.properties" "# minSdk: 19\n\nmanifest: m").loader, Resource.defaultFileName⟩
  defaults := sparseSource.defaults

/-- A resolver is made that knows one extractor. -/
def soleEvents (k : Kind) (e : Extractor (Fragment k)) : List (Event Kind) :=
  [.start, .register 0 k e]

def soleBuilder (k : Kind) (e : Extractor (Fragment k)) : ResolverBuilder Kind :=
  ⟨none, [⟨0, k, e⟩], 1⟩

@[simp] theorem soleBuilder_root (k : Kind) (e : Extractor (Fragment k)) :
    (soleBuilder k e).root = none := rfl

theorem soleBuilder_mem (k : Kind) (e : Extractor (Fragment k)) :
    soleBuilder k e ∈ (World.empty.run (soleEvents k e)).builders :=
  List.mem_cons_self

theorem mem_soleBuilder (k : Kind) (e : Extractor (Fragment k)) :
    ⟨0, k, e⟩ ∈ (soleBuilder k e).registrations :=
  List.mem_cons_self

theorem paddedSource_extends (node : Node) :
    sparseSource.Extends DeclaredKind.sdk.keys paddedSource node := by
  cases node with
  | defaults => rfl
  | package name =>
    have hSilent : (Properties.parse "# minSdk: 19\n\nmanifest: m").Silent
        DeclaredKind.sdk.keys := by
      unfold Properties.Silent
      decide
    exact Properties.extended_of_get? (by decide) hSilent Resource.defaultFileName name
  | type declared =>
    have hSilent : Blob.Silent DeclaredKind.sdk.keys silentFields := by
      unfold Blob.Silent
      simp [DeclaredKind.keys, silentFields, Blob.declared?, Table.find?]
    exact Blob.extended_of_find? rfl hSilent declared.name
  | member m =>
    exact Blob.extended_of_find? rfl (fun _ _ => rfl) (m.owner, m.name)

end Fixture

theorem silent_declarations_neutral_of_padded :
    ((Fixture.soleBuilder .sdk Fixture.sparseSource.extractor).build.resolve .empty
        Fixture.smallTarget).outcome.map (·.get Kind.sdk) = .ok (.ok ⟨[21], none, none⟩) ∧
      ((Fixture.soleBuilder .sdk Fixture.paddedSource.extractor).build.resolve .empty
        Fixture.smallTarget).outcome.map (·.get Kind.sdk) = .ok (.ok ⟨[21], none, none⟩) := by
  have hSparse : ((Fixture.soleBuilder .sdk Fixture.sparseSource.extractor).build.resolve .empty
      Fixture.smallTarget).outcome.map (·.get Kind.sdk) = .ok (.ok ⟨[21], none, none⟩) := rfl
  have hSame := silent_declarations_neutral .sdk
    (Fixture.soleBuilder_mem .sdk Fixture.sparseSource.extractor)
    (Fixture.soleBuilder_mem .sdk Fixture.paddedSource.extractor) (by simp)
    (Fixture.mem_soleBuilder .sdk Fixture.sparseSource.extractor)
    (Fixture.mem_soleBuilder .sdk Fixture.paddedSource.extractor)
    Fixture.smallChain_ofTarget fun node _ => Fixture.paddedSource_extends node
  exact ⟨hSparse, hSame.symm.trans hSparse⟩

end Heritage
