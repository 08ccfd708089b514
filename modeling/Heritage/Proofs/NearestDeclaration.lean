import Heritage.Proofs.Layers
import Heritage.Proofs.SilentDeclaration

/-!
# The nearest declaration

A resolved lookup holds in every scalar what the place closest to the member declares for it,
whatever that place or any other one says about the other fields. The libraries are the list that is
declared closest to the member, taken as it is.

* `Chain.nearest?`: what is found first on the way up from the member;
* `Chain.nearest?_eq`: a package that stands in a chain more than once makes no difference to it;
* `ResourceLookup.Declaration.eq_of_ofBlob`: what a blob declares, said without reading it field
  after field;
* `LookupField.get_foldl_overlay`, `ResourceLookup.libraries_foldl_overlay`: declarations that are
  laid over a lookup one after another leave the last value of every field;
* `nearest_declaration_wins`: and so does a resolution.

An empty text in a blob is a value of its field, and an empty one in a property file is none.
-/

namespace Heritage

/-! ## The way up from the member -/

namespace Chain

variable {α : Type} {c : Chain}

/-- What is found at the node closest to the member, among those where something is found. -/
def nearest? (c : Chain) (found? : Node → Option α) : Option α :=
  c.nodes.reverse.findSome? found?

/-- A stage that comes again comes right after itself. -/
theorem stages_getLast?_of_mem {front : List (Place × Node)} {stage : Place × Node}
    (h : front ++ [stage] <+: c.stages) (hMem : stage ∈ front) : front.getLast? = some stage := by
  have hLinked := c.stages_linked
  obtain ⟨rest, hRest⟩ := id h
  rw [← hRest, List.map_append, List.map_append, List.map_singleton] at hLinked
  have hLast := (linked_append.mp hLinked).1.getLast?_of_mem (List.mem_map_of_mem hMem)
  rw [List.getLast?_map] at hLast
  obtain ⟨last, hLast, hPlace⟩ := Option.map_eq_some_iff.mp hLast
  have hFront : last ∈ c.stages :=
    h.subset (List.mem_append_left [stage] (List.mem_of_getLast? hLast))
  have hStage : stage ∈ c.stages := h.subset (List.mem_append_left [stage] hMem)
  rw [hLast, c.stages_oneNodeEach last hFront stage hStage hPlace]

/-- The nearest find is the last one among the distinct nodes. -/
theorem nearest?_eq {root : Option String} {t : Target} (hc : ofTarget root t = .ok c)
    (found? : Node → Option α) :
    c.nearest? found? = (c.nodes.eraseDups.filterMap found?).getLast? := by
  rw [nearest?, ← List.getLast?_filterMap, nodes_eraseDups hc, nodes_eq_stages,
    getLast?_filterMap_concat, getLast?_filterMap_concat, List.filterMap_map, List.filterMap_map,
    getLast?_filterMap_eraseDups _ fun _ _ => stages_getLast?_of_mem]

end Chain

/-! ## What a record declares -/

theorem exists_of_bind_ok {ε α β : Type} {x : Except ε α} {f : α → Except ε β} {b : β}
    (h : x >>= f = .ok b) : ∃ a, x = .ok a ∧ f a = .ok b := by
  cases x with
  | error fault => cases h
  | ok a => exact ⟨a, rfl, h⟩

namespace Blob

/-- What a record has for a field: under its key in an object, at its position in an array. -/
def slot? (key : String) (position : Nat) : Blob → Option Blob
  | .object fields => Table.find? key fields
  | .array items => items[position]?
  | _ => none

/-- The text that a blob is. -/
def text? : Blob → Option String
  | .text s => some s
  | _ => none

/-- The list of texts that a blob is. -/
def texts? : Blob → Option (List String)
  | .array items => items.mapM text?
  | _ => none

/-- What a reader finds, a null being nothing, is what `value?` says. -/
def ReadsAs {α : Type} (reader : Reader α) (value? : Blob → Option α) : Prop :=
  ∀ b found, optional reader b = .ok found → value? b = found

theorem string_readsAs : ReadsAs string text? := by
  intro b found h
  cases b <;> cases h <;> rfl

theorem mapM_text?_of_ok {items : List Blob} {texts : List String}
    (h : items.mapM string = .ok texts) : items.mapM text? = some texts := by
  induction items generalizing texts with
  | nil =>
    cases h
    rfl
  | cons b rest ih =>
    rw [List.mapM_cons] at h
    obtain ⟨first, hFirst, h⟩ := exists_of_bind_ok h
    obtain ⟨others, hOthers, h⟩ := exists_of_bind_ok h
    cases h
    have hText : text? b = some first := by
      cases b <;> cases hFirst
      rfl
    rw [List.mapM_cons, hText, ih hOthers]
    rfl

theorem texts_readsAs : ReadsAs (listOf string) texts? := by
  intro b found h
  cases b with
  | null =>
    cases h
    rfl
  | array items =>
    cases hTexts : items.mapM string with
    | error fault => simp [optional, listOf, hTexts, Except.map] at h
    | ok texts =>
      simp only [optional, listOf, hTexts, Except.map, Except.ok.injEq] at h
      rw [texts?, mapM_text?_of_ok hTexts, h]
  | boolean | integer | float | text | object => cases h

variable {α : Type} {reader : Reader α} {value? : Blob → Option α} {found : Option α}

theorem ReadsAs.field (hReader : ReadsAs reader value?) {fields : List (String × Blob)}
    {key : String} (h : field fields key reader = .ok found) (position : Nat) :
    ((object fields).slot? key position).bind value? = found := by
  show (Table.find? key fields).bind value? = found
  unfold Blob.field at h
  cases hSlot : Table.find? key fields with
  | none =>
    rw [hSlot] at h
    exact Except.ok.inj h
  | some b =>
    rw [hSlot] at h
    exact hReader b found h

theorem ReadsAs.element (hReader : ReadsAs reader value?) {shape : RecordShape}
    {items : List Blob} {position : Nat} (h : shape.element items position reader = .ok found)
    (key : String) : ((array items).slot? key position).bind value? = found := by
  show items[position]?.bind value? = found
  unfold RecordShape.element at h
  cases hSlot : items[position]? with
  | none =>
    rw [hSlot] at h
    cases h
  | some b =>
    rw [hSlot] at h
    exact hReader b found h

end Blob

/-! ## Fields of lookups -/

theorem ListSetting.declared_replace {α : Type} (items : List α) :
    declared .replace (some items) = .replace items := by
  cases items <;> rfl

/-- The fields of lookups that hold one text. -/
inductive LookupField where
  | manifest
  | resourceDir
  | assetDir
  | packageName
  deriving DecidableEq, Repr

namespace LookupField

def key : LookupField → String
  | .manifest => "manifest"
  | .resourceDir => "resourceDir"
  | .assetDir => "assetDir"
  | .packageName => "packageName"

/-- The position of a field in a record that is written as an array. -/
def position : LookupField → Nat
  | .manifest => 0
  | .resourceDir => 1
  | .assetDir => 2
  | .packageName => 3

/-- The text that a lookup holds in a field. -/
def get : LookupField → ResourceLookup → Option String
  | .manifest => ResourceLookup.manifest
  | .resourceDir => ResourceLookup.resourceDir
  | .assetDir => ResourceLookup.assetDir
  | .packageName => ResourceLookup.packageName

/-- The text that a declaration has for a field. -/
def declared : LookupField → ResourceLookup.Declaration → Option String
  | .manifest => ResourceLookup.Declaration.manifest
  | .resourceDir => ResourceLookup.Declaration.resourceDir
  | .assetDir => ResourceLookup.Declaration.assetDir
  | .packageName => ResourceLookup.Declaration.packageName

variable (field : LookupField)

/-- The text that a property set has for a field, unless it is empty. -/
def inSet? (p : Properties) : Option String :=
  (p.get? field.key).filter (· ≠ "")

/-- The text that a blob has for a field, be it empty or not. -/
def inBlob? (b : Blob) : Option String :=
  (b.slot? field.key field.position).bind Blob.text?

/-- Of declarations that are laid over a lookup, the last one that has a field decides on it. -/
theorem get_foldl_overlay (start : ResourceLookup)
    (declarations : List ResourceLookup.Declaration) :
    field.get ((declarations.map ResourceLookup.ofDeclaration).foldl
        ResourceLookup.overlay start) =
      (declarations.filterMap field.declared).getLast?.or (field.get start) := by
  induction declarations using List.reverseRecOn with
  | nil => rfl
  | append_singleton front d ih =>
    rw [List.map_append, List.map_singleton, List.foldl_concat, getLast?_filterMap_concat,
      Option.or_assoc, ← ih]
    cases field <;> rfl

end LookupField

namespace ResourceLookup

/-- The libraries that a property set lists. An empty value lists none. -/
def librariesInSet? (p : Properties) : Option (List String) :=
  p.list? "libraries"

/-- The libraries that a blob lists. -/
def librariesInBlob? (b : Blob) : Option (List String) :=
  (b.slot? "libraries" 4).bind Blob.texts?

theorem libraries_foldl_overlay (start : ResourceLookup) (declarations : List Declaration) :
    ((declarations.map ofDeclaration).foldl overlay start).libraries =
      ((declarations.filterMap Declaration.libraries).getLast?.map .replace).getD
        start.libraries := by
  induction declarations using List.reverseRecOn with
  | nil => rfl
  | append_singleton front d ih =>
    rw [List.map_append, List.map_singleton, List.foldl_concat, getLast?_filterMap_concat]
    show ListSetting.overlay _ (.declared .replace d.libraries) = _
    cases hLibraries : d.libraries with
    | none => exact (ListSetting.overlay_unset _).trans ih
    | some items =>
      rw [Option.some_or, ListSetting.declared_replace, ListSetting.overlay_replace]
      rfl

/-- What is read from a blob is what the blob has for each of the fields. -/
theorem Declaration.eq_of_ofBlob {b : Blob} {d : Declaration}
    (h : Declarable.ofBlob (F := ResourceLookup) b = .ok d) :
    d = ⟨LookupField.inBlob? .manifest b, LookupField.inBlob? .resourceDir b,
      LookupField.inBlob? .assetDir b, LookupField.inBlob? .packageName b,
      librariesInBlob? b⟩ := by
  cases b with
  | null | boolean | integer | float | text => cases h
  | object fields =>
    obtain ⟨_, hAssetDir, h⟩ := exists_of_bind_ok h
    obtain ⟨_, hLibraries, h⟩ := exists_of_bind_ok h
    obtain ⟨_, hManifest, h⟩ := exists_of_bind_ok h
    obtain ⟨_, hPackageName, h⟩ := exists_of_bind_ok h
    obtain ⟨_, hResourceDir, h⟩ := exists_of_bind_ok h
    cases h
    obtain rfl := Blob.string_readsAs.field hAssetDir 2
    obtain rfl := Blob.texts_readsAs.field hLibraries 4
    obtain rfl := Blob.string_readsAs.field hManifest 0
    obtain rfl := Blob.string_readsAs.field hPackageName 3
    obtain rfl := Blob.string_readsAs.field hResourceDir 1
    rfl
  | array items =>
    obtain ⟨d', hElements, hLength⟩ := exists_of_bind_ok h
    obtain rfl : d' = d := by
      split at hLength
      · cases hLength
      · exact Except.ok.inj hLength
    obtain ⟨_, hManifest, h⟩ := exists_of_bind_ok hElements
    obtain ⟨_, hResourceDir, h⟩ := exists_of_bind_ok h
    obtain ⟨_, hAssetDir, h⟩ := exists_of_bind_ok h
    obtain ⟨_, hPackageName, h⟩ := exists_of_bind_ok h
    obtain ⟨_, hLibraries, h⟩ := exists_of_bind_ok h
    cases h
    obtain rfl := Blob.string_readsAs.element hManifest "manifest"
    obtain rfl := Blob.string_readsAs.element hResourceDir "resourceDir"
    obtain rfl := Blob.string_readsAs.element hAssetDir "assetDir"
    obtain rfl := Blob.string_readsAs.element hPackageName "packageName"
    obtain rfl := Blob.texts_readsAs.element hLibraries "libraries"
    rfl

end ResourceLookup

theorem LookupField.declared_of_ofProperties (field : LookupField) {p : Properties}
    {d : ResourceLookup.Declaration}
    (h : Declarable.ofProperties (F := ResourceLookup) p = .ok d) :
    field.declared d = field.inSet? p := by
  cases h
  cases field <;> rfl

theorem LookupField.declared_of_ofBlob (field : LookupField) {b : Blob}
    {d : ResourceLookup.Declaration} (h : Declarable.ofBlob (F := ResourceLookup) b = .ok d) :
    field.declared d = field.inBlob? b := by
  rw [ResourceLookup.Declaration.eq_of_ofBlob h]
  cases field <;> rfl

/-! ## What is found at the nodes -/

namespace DeclaredSource

variable {F : Type} [Declarable F] {s : DeclaredSource F} {α : Type}

/-- What a source has at a node, where `inSet?` tells what a property set has and `inBlob?` what a
blob has. -/
def found? (s : DeclaredSource F) (inSet? : Properties → Option α) (inBlob? : Blob → Option α) :
    Node → Option α
  | .defaults => none
  | .package name =>
    match s.properties? name with
    | .ok (some p) => inSet? p
    | _ => none
  | .type declared => (s.metadata.ofType? declared).bind inBlob?
  | .member m => (s.metadata.ofMember? m).bind inBlob?

variable {part? : Declarable.Declaration F → Option α} {inSet? : Properties → Option α}
  {inBlob? : Blob → Option α}

theorem blobDeclaration?_bind
    (hBlob : ∀ b d, Declarable.ofBlob (F := F) b = .ok d → part? d = inBlob? b) {node : String}
    {b : Option Blob} {found : Option F} (h : ofBlob? node b = .ok found) :
    (blobDeclaration? b).bind part? = b.bind inBlob? := by
  cases b with
  | none => rfl
  | some blob =>
    obtain ⟨d, hRead, -⟩ := exists_read_of_ofBlob? h
    simpa [blobDeclaration?, hRead, Except.toOption] using hBlob blob d hRead

/-- A part of what a node declares is what the source has for it there, if the node does not fail.
-/
theorem declaration?_bind
    (hSet : ∀ p d, Declarable.ofProperties (F := F) p = .ok d → part? d = inSet? p)
    (hBlob : ∀ b d, Declarable.ofBlob (F := F) b = .ok d → part? d = inBlob? b) {node : Node}
    (h : s.extractor.failure? node = none) :
    (s.declaration? node).bind part? = s.found? inSet? inBlob? node := by
  obtain ⟨found, hFound⟩ := Extractor.exists_contribution_of_readable h
  cases node with
  | defaults => rfl
  | package name =>
    cases hFile : s.properties? name with
    | error failure => simp [declaration?, found?, hFile]
    | ok file =>
      cases file with
      | none => simp [declaration?, found?, hFile]
      | some p =>
        obtain ⟨d, hRead, -⟩ := exists_read_of_ofPackage hFile hFound
        simpa [declaration?, found?, hFile, hRead, Except.toOption] using hSet p d hRead
  | type declared => exact blobDeclaration?_bind hBlob hFound
  | member m => exact blobDeclaration?_bind hBlob hFound

/-- Where no node fails, the last of the declarations that have a part has the nearest one. -/
theorem getLast?_declarations {root : Option String} {t : Target} {c : Chain}
    (hc : Chain.ofTarget root t = .ok c)
    (hRead : ∀ node ∈ c.nodes, s.extractor.failure? node = none)
    (hSet : ∀ p d, Declarable.ofProperties (F := F) p = .ok d → part? d = inSet? p)
    (hBlob : ∀ b d, Declarable.ofBlob (F := F) b = .ok d → part? d = inBlob? b) :
    ((c.nodes.eraseDups.filterMap s.declaration?).filterMap part?).getLast? =
      c.nearest? (s.found? inSet? inBlob?) := by
  rw [Chain.nearest?_eq hc, List.filterMap_filterMap]
  refine congrArg List.getLast? (List.filterMap_congr fun node hNode => ?_)
  exact declaration?_bind hSet hBlob (hRead node (List.mem_eraseDups.mp hNode))

end DeclaredSource

/-- Let what a source declares be fixed, although fetching it may have failed before, and let no node
of a chain fail now. Then each scalar of the lookup that the chain resolves to is the one declared
closest to the member, and that of the default if none is declared. The libraries are those listed
closest to the member, an empty list included, and the setting of the default if no list is
declared. -/
theorem nearest_declaration_wins (events : List (Event Kind)) {b : ResolverBuilder Kind}
    (hb : b ∈ (World.empty.run events).builders) {id : Nat} {s : DeclaredSource ResourceLookup}
    (hr : ⟨id, .resources, s.extractor⟩ ∈ b.registrations)
    (hWithin : ∀ i target answers, .resolve i target answers ∈ events →
      (answers ⟨id, .resources, s.extractor⟩).Within s.extractor)
    {target : Target} {c : Chain} (hc : Chain.ofTarget b.root target = .ok c)
    {answers : Answers Kind} (hNow : answers ⟨id, .resources, s.extractor⟩ = s.extractor)
    (hRead : ∀ node ∈ c.nodes, s.extractor.failure? node = none) :
    ∃ lookup : ResourceLookup,
      ((b.build.answering answers).resolve (World.empty.run events).cache target).outcomeOf
          Kind.resources = some (.ok lookup) ∧
        (∀ field : LookupField, field.get lookup =
          (c.nearest? (s.found? field.inSet? field.inBlob?)).or (field.get s.defaults)) ∧
        lookup.libraries =
          ((c.nearest? (s.found? ResourceLookup.librariesInSet?
            ResourceLookup.librariesInBlob?)).map .replace).getD s.defaults.libraries := by
  have hOutcome := World.outcomeOf_of_within (d := .resources) hb hr hWithin hc hNow hRead
  refine ⟨_, hOutcome, fun field => ?_, ?_⟩
  · rw [← DeclaredSource.getLast?_declarations hc hRead
      (fun _ _ => field.declared_of_ofProperties) fun _ _ => field.declared_of_ofBlob]
    exact field.get_foldl_overlay s.defaults _
  · have hSet : ∀ p d, Declarable.ofProperties (F := ResourceLookup) p = .ok d →
        d.libraries = ResourceLookup.librariesInSet? p := by
      intro p d h
      cases h
      rfl
    have hBlob : ∀ b d, Declarable.ofBlob (F := ResourceLookup) b = .ok d →
        d.libraries = ResourceLookup.librariesInBlob? b := by
      intro b d h
      rw [ResourceLookup.Declaration.eq_of_ofBlob h]
    rw [← DeclaredSource.getLast?_declarations hc hRead hSet hBlob]
    exact ResourceLookup.libraries_foldl_overlay s.defaults _

namespace Fixture

/-- A source that declares every field at more than one node, and the libraries as an empty list
last. -/
def patchySource : DeclaredSource ResourceLookup where
  metadata := ((Metadata.empty.insertType "org.Base"
      (.array [.text "base.xml", .null, .text "", .null, .array [.text "libs"]])).insertType
    "org.Leaf" (.object [("libraries", .array []), ("manifest", .null),
      ("packageName", .text "org.leaf")])).insertMember
    "org.Base" "runs" (.object [("resourceDir", .text "res")])
  properties := some ⟨(Resource.Store.ofList
    [("config.properties", "manifest: top.xml\nresourceDir: top"),
      ("org/config.properties", "manifest:\npackageName: org.pkg\nassetDir: assets")]).loader,
    Resource.defaultFileName⟩
  defaults := ⟨some "default.xml", none, none, none, .extend ["lib"]⟩

end Fixture

theorem nearest_declaration_wins_of_patchy :
    (∀ node ∈ Fixture.smallChain.nodes, Fixture.patchySource.extractor.failure? node = none) ∧
      ((Fixture.soleBuilder .resources Fixture.patchySource.extractor).build.resolve
          (World.empty.run (Fixture.soleEvents .resources Fixture.patchySource.extractor)).cache
          Fixture.smallTarget).outcomeOf Kind.resources =
        some (.ok ⟨some "base.xml", some "res", some "", some "org.leaf", .replace []⟩) := by
  have hRead : ∀ node ∈ Fixture.smallChain.nodes,
      Fixture.patchySource.extractor.failure? node = none := by
    decide
  have hNow : (Registration.extractor : Answers Kind)
      ⟨0, .resources, Fixture.patchySource.extractor⟩ = Fixture.patchySource.extractor := rfl
  obtain ⟨lookup, hOutcome, hFields, hLibraries⟩ := nearest_declaration_wins
    (Fixture.soleEvents .resources Fixture.patchySource.extractor)
    (Fixture.soleBuilder_mem .resources Fixture.patchySource.extractor)
    (Fixture.mem_soleBuilder .resources Fixture.patchySource.extractor)
    (by simp [Fixture.soleEvents]) Fixture.smallChain_ofTarget hNow hRead
  obtain ⟨manifest, resourceDir, assetDir, packageName, libraries⟩ := lookup
  obtain rfl : manifest = some "base.xml" := hFields .manifest
  obtain rfl : resourceDir = some "res" := hFields .resourceDir
  obtain rfl : assetDir = some "" := hFields .assetDir
  obtain rfl : packageName = some "org.leaf" := hFields .packageName
  obtain rfl : libraries = .replace [] := hLibraries
  exact ⟨hRead, hOutcome⟩

end Heritage
