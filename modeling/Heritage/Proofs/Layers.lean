import Heritage.Proofs.Locality

/-!
# Chains that can be read

Where no node of a chain fails, what the chain resolves to follows from the declarations found at
its nodes: each is turned into the fragment it contributes, and these are laid over the defaults,
one after another.

* `DeclaredSource.declaration?`: what a node declares;
* `DeclaredSource.foldFrom_of_readable`: the fold over nodes that can be read;
* `World.outcomeOf_of_within`, `World.outcomeOf_of_readable`: the outcome of a resolution, whatever
  has been cached before.
-/

namespace Heritage

theorem Extractor.exists_contribution_of_readable {F : Type} {e : Extractor F} {node : Node}
    (h : e.failure? node = none) : ∃ found, e.contribution node = .ok found := by
  unfold failure? at h
  cases hFetch : e.contribution node with
  | error failure => simp [hFetch] at h
  | ok found => exact ⟨found, rfl⟩

namespace DeclaredSource

variable {F : Type} [Declarable F] {s : DeclaredSource F}

/-- What a blob declares, if it can be read. -/
def blobDeclaration? (b : Option Blob) : Option (Declarable.Declaration F) :=
  b.bind fun blob => (Declarable.ofBlob blob).toOption

/-- What a node declares, if there is something that can be read. -/
def declaration? (s : DeclaredSource F) : Node → Option (Declarable.Declaration F)
  | .defaults => none
  | .package name =>
    match s.properties? name with
    | .ok (some p) => (Declarable.ofProperties p).toOption
    | _ => none
  | .type declared => blobDeclaration? (s.metadata.ofType? declared)
  | .member m => blobDeclaration? (s.metadata.ofMember? m)

theorem exists_read_of_ofPackage {name : String} {p : Properties}
    (hFile : s.properties? name = .ok (some p)) {found : Option F}
    (h : s.ofPackage name = .ok found) :
    ∃ d, Declarable.ofProperties (F := F) p = .ok d ∧ found = some (Declarable.ofDeclaration d) := by
  rw [ofPackage_eq, hFile] at h
  cases hRead : Declarable.ofProperties (F := F) p with
  | error fault => simp [ofProperties, hRead, Except.map] at h
  | ok d => exact ⟨d, rfl, by simpa [ofProperties, hRead, Except.map] using h.symm⟩

theorem exists_read_of_ofBlob? {node : String} {blob : Blob} {found : Option F}
    (h : ofBlob? node (some blob) = .ok found) :
    ∃ d, Declarable.ofBlob (F := F) blob = .ok d ∧ found = some (Declarable.ofDeclaration d) := by
  cases hRead : Declarable.ofBlob (F := F) blob with
  | error fault => simp [ofBlob?, ofBlob, hRead, Except.map] at h
  | ok d => exact ⟨d, rfl, by simpa [ofBlob?, ofBlob, hRead, Except.map] using h.symm⟩

theorem ofPackage_of_ok {name : String} {found : Option F} (h : s.ofPackage name = .ok found) :
    found = (s.declaration? (.package name)).map Declarable.ofDeclaration := by
  cases hFile : s.properties? name with
  | error failure => simp [ofPackage_eq, hFile] at h
  | ok file =>
    cases file with
    | none => simpa [ofPackage_eq, declaration?, hFile] using h.symm
    | some p =>
      obtain ⟨d, hRead, rfl⟩ := exists_read_of_ofPackage hFile h
      simp [declaration?, hFile, hRead, Except.toOption]

theorem ofBlob?_of_ok {node : String} {b : Option Blob} {found : Option F}
    (h : ofBlob? node b = .ok found) :
    found = (blobDeclaration? b).map Declarable.ofDeclaration := by
  cases b with
  | none => simpa [ofBlob?, blobDeclaration?] using h.symm
  | some blob =>
    obtain ⟨d, hRead, rfl⟩ := exists_read_of_ofBlob? h
    simp [blobDeclaration?, hRead, Except.toOption]

/-- A node that does not fail contributes what it declares. -/
theorem contribution_of_readable {node : Node} (h : s.extractor.failure? node = none) :
    s.extractor.contribution node =
      .ok ((s.declaration? node).map Declarable.ofDeclaration) := by
  obtain ⟨found, hFound⟩ := Extractor.exists_contribution_of_readable h
  rw [hFound]
  refine congrArg Except.ok ?_
  cases node with
  | defaults => exact (Except.ok.inj hFound).symm
  | package name => exact ofPackage_of_ok hFound
  | type declared => exact ofBlob?_of_ok hFound
  | member m => exact ofBlob?_of_ok hFound

theorem foldFrom_of_readable {nodes : List Node}
    (h : ∀ node ∈ nodes, s.extractor.failure? node = none) (parent : F) :
    s.extractor.foldFrom parent nodes =
      .ok (((nodes.filterMap s.declaration?).map Declarable.ofDeclaration).foldl
        Declarable.overlay parent) := by
  induction nodes generalizing parent with
  | nil => rfl
  | cons node rest ih =>
    have hRest := ih fun other hOther => h other (List.mem_cons_of_mem node hOther)
    rw [Extractor.foldFrom, Extractor.step, contribution_of_readable (h node List.mem_cons_self)]
    cases hDeclared : s.declaration? node with
    | none =>
      rw [List.filterMap_cons_none hDeclared]
      exact hRest parent
    | some d =>
      rw [List.filterMap_cons_some hDeclared]
      exact hRest (Declarable.overlay parent (Declarable.ofDeclaration d))

end DeclaredSource

/-- Let every fetch so far have found what a source declares, or failed. If no node of a chain fails
now, the outcome of the kind, after any events, is what the declarations at the distinct nodes make
of the defaults. -/
theorem World.outcomeOf_of_within {d : DeclaredKind} {events : List (Event Kind)}
    {b : ResolverBuilder Kind} (hb : b ∈ (World.empty.run events).builders) {id : Nat}
    {s : DeclaredSource (Fragment d.kind)} (hr : ⟨id, d.kind, s.extractor⟩ ∈ b.registrations)
    (hWithin : ∀ i target answers, .resolve i target answers ∈ events →
      (answers ⟨id, d.kind, s.extractor⟩).Within s.extractor)
    {target : Target} {c : Chain} (hc : Chain.ofTarget b.root target = .ok c)
    {answers : Answers Kind} (hNow : answers ⟨id, d.kind, s.extractor⟩ = s.extractor)
    (hRead : ∀ node ∈ c.nodes, s.extractor.failure? node = none) :
    ((b.build.answering answers).resolve (World.empty.run events).cache target).outcomeOf d.kind =
      some (.ok (((c.nodes.eraseDups.filterMap s.declaration?).map Declarable.ofDeclaration).foldl
        Declarable.overlay s.defaults)) := by
  have hNowWithin : (answers ⟨id, d.kind, s.extractor⟩).Within s.extractor := by
    rw [hNow]
    exact .refl _
  obtain ⟨outcome, hOutcome, hFold⟩ :=
    World.fold_of_ok hb hr s.extractor_byName hWithin hc hNowWithin
  cases outcome with
  | ok f =>
    have hLayers := DeclaredSource.foldFrom_of_readable
      (fun node hNode => hRead node (List.mem_eraseDups.mp hNode)) s.defaults
    have hSame := hFold f rfl
    rw [← Chain.nodes_eraseDups hc] at hSame
    rw [hOutcome, ← hSame]
    exact congrArg some hLayers
  | error failure =>
    -- a node that can be read stops no walk, whether it is known or not
    have hStop := (World.outcomeOf_eq_error_iff hb hr hc answers).mp hOutcome
    obtain ⟨visit, hVisit, hFails⟩ := List.exists_of_findSome?_eq_some hStop
    have hNode : visit.2 ∈ c.nodes := by
      rw [← Chain.visits_nodes]
      exact List.mem_map_of_mem hVisit
    unfold Registration.stop? at hFails
    split at hFails
    · cases hFails
    · have hFetch : (answers ⟨id, d.kind, s.extractor⟩).failure? visit.2 = some failure := hFails
      rw [hNow, hRead visit.2 hNode] at hFetch
      cases hFetch

/-- Let what a source declares be fixed. If no node of a chain fails, the outcome of the kind, after
any events, is what the declarations at the distinct nodes make of the defaults. -/
theorem World.outcomeOf_of_readable {d : DeclaredKind} {events : List (Event Kind)}
    {b : ResolverBuilder Kind} (hb : b ∈ (World.empty.run events).builders) {id : Nat}
    {s : DeclaredSource (Fragment d.kind)} (hr : ⟨id, d.kind, s.extractor⟩ ∈ b.registrations)
    (hFixed : ∀ i target answers, .resolve i target answers ∈ events →
      answers ⟨id, d.kind, s.extractor⟩ = s.extractor)
    {target : Target} {c : Chain} (hc : Chain.ofTarget b.root target = .ok c)
    {answers : Answers Kind} (hNow : answers ⟨id, d.kind, s.extractor⟩ = s.extractor)
    (hRead : ∀ node ∈ c.nodes, s.extractor.failure? node = none) :
    ((b.build.answering answers).resolve (World.empty.run events).cache target).outcomeOf d.kind =
      some (.ok (((c.nodes.eraseDups.filterMap s.declaration?).map Declarable.ofDeclaration).foldl
        Declarable.overlay s.defaults)) := by
  refine World.outcomeOf_of_within hb hr (fun i target answers hMem => ?_) hc hNow hRead
  rw [hFixed i target answers hMem]
  exact .refl _

end Heritage
