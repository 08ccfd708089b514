import Heritage.Proofs.SilentDeclaration

/-!
# Scalars that are declared empty

Six fields of the declared kinds hold one text. A property file cannot declare such a field to be
empty, since an empty value counts as none, and neither can an object for the qualifiers. For the
other five fields an object can: the empty text is laid over what is inherited.

* `ScalarField.overlay_put`, `put_overlay_of_declared`, `put_overlay_of_undeclared`: how one field
  passes through an overlay, whatever the others hold;
* `DeclaredSource.step_of_kept`, `step_of_dropped`: what an empty declaration makes of a fragment;
* `DeclaredSource.foldFrom_put_of_declared`, `foldFrom_put_of_undeclared`: what later nodes make of
  a text in a field;
* `empty_scalar_hides_iff`: an empty declaration shows at the end just when an object makes it and
  no later node declares the field.
-/

namespace Heritage

/-! ## The fields -/

/-- The fields of the declared kinds that hold one text. -/
inductive ScalarField where
  | manifest
  | resourceDir
  | assetDir
  | packageName
  | application
  | qualifiers
  deriving DecidableEq, Repr

namespace ScalarField

/-- The kind that a field belongs to. -/
def kind : ScalarField → DeclaredKind
  | .manifest | .resourceDir | .assetDir | .packageName => .resources
  | .application | .qualifiers => .runtime

def key : ScalarField → String
  | .manifest => "manifest"
  | .resourceDir => "resourceDir"
  | .assetDir => "assetDir"
  | .packageName => "packageName"
  | .application => "application"
  | .qualifiers => "qualifiers"

/-- The text that a fragment holds in a field. -/
def get : (f : ScalarField) → Fragment f.kind.kind → Option String
  | .manifest => ResourceLookup.manifest
  | .resourceDir => ResourceLookup.resourceDir
  | .assetDir => ResourceLookup.assetDir
  | .packageName => ResourceLookup.packageName
  | .application => RuntimeSetup.application
  | .qualifiers => RuntimeSetup.qualifiers

/-- The fragment with a text in a field. -/
def put (text : String) : (f : ScalarField) → Fragment f.kind.kind → Fragment f.kind.kind
  | .manifest, (r : ResourceLookup) => { r with manifest := some text }
  | .resourceDir, (r : ResourceLookup) => { r with resourceDir := some text }
  | .assetDir, (r : ResourceLookup) => { r with assetDir := some text }
  | .packageName, (r : ResourceLookup) => { r with packageName := some text }
  | .application, (r : RuntimeSetup) => { r with application := some text }
  | .qualifiers, (r : RuntimeSetup) => { r with qualifiers := some text }

variable {f : ScalarField} {text : String} {parent child : Fragment f.kind.kind}

theorem get_put : f.get (put text f child) = some text := by
  cases f <;> rfl

theorem put_put (other : String) : put text f (put other f child) = put text f child := by
  cases f <;> rfl

theorem put_eq_self_iff : put text f child = child ↔ f.get child = some text := by
  constructor
  · intro h
    rw [← h, get_put]
  · intro h
    cases f <;> rcases child with ⟨⟩ <;> cases h <;> rfl

theorem overlay_put (hPlain : f ≠ .qualifiers) :
    Declarable.overlay parent (put text f child) =
      put text f (Declarable.overlay parent child) := by
  cases f with
  | qualifiers => exact absurd rfl hPlain
  | _ => rfl

theorem put_overlay_of_declared (hPlain : f ≠ .qualifiers) (h : (f.get child).isSome) :
    Declarable.overlay (put text f parent) child = Declarable.overlay parent child := by
  obtain ⟨own, hOwn⟩ := Option.isSome_iff_exists.mp h
  cases f with
  | qualifiers => exact absurd rfl hPlain
  | _ => rcases child with ⟨⟩; cases hOwn; rfl

theorem put_overlay_of_undeclared (hPlain : f ≠ .qualifiers) (h : f.get child = none) :
    Declarable.overlay (put text f parent) child =
      put text f (Declarable.overlay parent child) := by
  cases f with
  | qualifiers => exact absurd rfl hPlain
  | _ => rcases child with ⟨⟩; cases h; rfl

/-! ## Reading a field that is declared empty -/

/-- The fragment of an object in which a field is empty, from that of the object without it. Empty
qualifiers count as undeclared. -/
def emptied (f : ScalarField) (fragment : Fragment f.kind.kind) : Fragment f.kind.kind :=
  if f = .qualifiers then fragment else put "" f fragment

theorem overlay_emptied :
    Declarable.overlay parent (f.emptied child) = f.emptied (Declarable.overlay parent child) := by
  unfold emptied
  split
  · rfl
  · rename_i hPlain
    exact overlay_put hPlain

end ScalarField

/-- Fields of two objects that declare the same under some keys, but for one key: the first object
declares nothing there, and the second one the empty text. -/
structure Blob.EmptiedFields (keys : List String) (key : String)
    (fields others : List (String × Blob)) : Prop where
  undeclared : declared? key fields = none
  empty : declared? key others = some (.text "")
  rest : ∀ other ∈ keys, other ≠ key → declared? other fields = declared? other others

namespace Blob.EmptiedFields

variable {keys : List String} {key : String} {fields others : List (String × Blob)}

theorem field_none (h : EmptiedFields keys key fields others) :
    field fields key string = .ok none :=
  field_of_undeclared h.undeclared string

theorem field_empty (h : EmptiedFields keys key fields others) :
    field others key string = .ok (some "") := by
  rw [field_eq, h.empty]
  rfl

theorem field_rest (h : EmptiedFields keys key fields others) {other : String}
    (hOther : other ∈ keys ∧ other ≠ key) {α : Type} (reader : Reader α) :
    field others other reader = field fields other reader := by
  rw [field_eq, field_eq, h.rest other hOther.1 hOther.2]

end Blob.EmptiedFields

namespace ScalarField

/-- What the fragments of two objects are to each other that differ in an empty field. -/
theorem ofObject_emptied {f : ScalarField} {fields others : List (String × Blob)}
    (h : Blob.EmptiedFields f.kind.keys f.key fields others) :
    (Declarable.ofBlob (F := Fragment f.kind.kind) (.object others)).map Declarable.ofDeclaration =
      ((Declarable.ofBlob (.object fields)).map Declarable.ofDeclaration).map f.emptied := by
  have hNone := h.field_none
  have hEmpty := h.field_empty
  cases f with
  | manifest | resourceDir | assetDir | packageName =>
    show (ResourceLookup.Declaration.ofFields others).map ResourceLookup.ofDeclaration =
      ((ResourceLookup.Declaration.ofFields fields).map ResourceLookup.ofDeclaration).map _
    simp only [key] at hNone hEmpty
    simp (disch := decide) only [ResourceLookup.Declaration.ofFields, hNone, hEmpty, h.field_rest]
    cases Blob.field fields "assetDir" Blob.string <;>
      cases Blob.field fields "libraries" (Blob.listOf Blob.string) <;>
      cases Blob.field fields "manifest" Blob.string <;>
      cases Blob.field fields "packageName" Blob.string <;>
      cases Blob.field fields "resourceDir" Blob.string <;> rfl
  | application | qualifiers =>
    show (RuntimeSetup.Declaration.ofFields others).map RuntimeSetup.ofDeclaration =
      ((RuntimeSetup.Declaration.ofFields fields).map RuntimeSetup.ofDeclaration).map _
    simp only [key] at hNone hEmpty
    simp (disch := decide) only [RuntimeSetup.Declaration.ofFields, hNone, hEmpty, h.field_rest]
    cases Blob.field fields "application" Blob.string <;>
      cases Blob.field fields "instrumentedPackages" (Blob.listOf Blob.string) <;>
      cases Blob.field fields "qualifiers" Blob.string <;>
      cases Blob.field fields "shadows" (Blob.listOf Blob.string) <;> rfl

end ScalarField

/-- Property sets that declare the same under some keys, but for one key: the first set declares
nothing there, and the second one the empty text. -/
structure Properties.EmptiedSet (keys : List String) (key : String) (p q : Properties) :
    Prop where
  undeclared : p.get? key = none
  empty : q.get? key = some ""
  rest : ∀ other ∈ keys, other ≠ key → p.get? other = q.get? other

namespace Properties.EmptiedSet

variable {keys : List String} {key : String} {p q : Properties}

theorem string?_eq (h : EmptiedSet keys key p q) {other : String} (hOther : other ∈ keys) :
    p.string? other = q.string? other := by
  by_cases hSame : other = key
  · rw [hSame, string?, string?, h.undeclared, h.empty]
    rfl
  · rw [string?, string?, h.rest other hOther hSame]

theorem list?_eq (h : EmptiedSet keys key p q) {other : String}
    (hOther : other ∈ keys ∧ other ≠ key) : p.list? other = q.list? other := by
  rw [list?, list?, h.rest other hOther.1 hOther.2]

end Properties.EmptiedSet

theorem ScalarField.ofProperties_emptied {f : ScalarField} {p q : Properties}
    (h : Properties.EmptiedSet f.kind.keys f.key p q) :
    Declarable.ofProperties (F := Fragment f.kind.kind) p = Declarable.ofProperties q := by
  cases f with
  | manifest | resourceDir | assetDir | packageName =>
    refine congrArg Except.ok ?_
    unfold ResourceLookup.Declaration.ofProperties
    rw [h.string?_eq (by decide), h.string?_eq (by decide), h.string?_eq (by decide),
      h.string?_eq (by decide), h.list?_eq (by decide)]
  | application | qualifiers =>
    refine congrArg Except.ok ?_
    unfold RuntimeSetup.Declaration.ofProperties
    rw [h.string?_eq (by decide), h.string?_eq (by decide), h.list?_eq (by decide),
      h.list?_eq (by decide)]

/-! ## Sources with a field declared empty -/

/-- The second blob is an object in which a key is empty. The first one is an object that declares
the same but for that key, or is not there while the second one declares nothing else. -/
def Blob.Emptied (keys : List String) (key : String) (b b' : Option Blob) : Prop :=
  ∃ fields others, Extended keys b (some (.object fields)) ∧ b' = some (.object others) ∧
    EmptiedFields keys key fields others

/-- The same for answers to the request for a property set. -/
def Properties.Emptied (keys : List String) (key : String)
    (found found' : Except Failure (Option Properties)) : Prop :=
  ∃ p q, Extended keys found (.ok (some p)) ∧ found' = .ok (some q) ∧ EmptiedSet keys key p q

/-- Whether a field that is declared empty at a node holds the empty text. Property files and the
qualifiers take it for no declaration. -/
def ScalarField.Keeps (f : ScalarField) : Node → Prop
  | .defaults | .package _ => False
  | .type _ | .member _ => f ≠ .qualifiers

theorem ScalarField.Keeps.plain {f : ScalarField} {node : Node} (h : f.Keeps node) :
    f ≠ .qualifiers := by
  cases node with
  | defaults => exact h.elim
  | package name => exact h.elim
  | type declared => exact h
  | member m => exact h

namespace DeclaredSource

open ScalarField

variable {f : ScalarField} {s s' : DeclaredSource (Fragment f.kind.kind)} {node : Node}
  {parent : Fragment f.kind.kind} {nodes : List Node}

/-- Whether two sources declare the same at a node but for one field, which the first one does not
declare and the second one declares to be empty. -/
def EmptiedAt (f : ScalarField) (s s' : DeclaredSource (Fragment f.kind.kind)) : Node → Prop
  | .defaults => False
  | .package name =>
    Properties.Emptied f.kind.keys f.key (s.properties? name) (s'.properties? name)
  | .type declared =>
    Blob.Emptied f.kind.keys f.key (s.metadata.ofType? declared) (s'.metadata.ofType? declared)
  | .member m => Blob.Emptied f.kind.keys f.key (s.metadata.ofMember? m) (s'.metadata.ofMember? m)

theorem ofBlob_eq (shown : String) (b : Blob) :
    ofBlob (F := Fragment f.kind.kind) shown b =
      ((Declarable.ofBlob b).map Declarable.ofDeclaration).mapError fun fault =>
        .malformed (Declarable.kindName (Fragment f.kind.kind)) shown fault.message := by
  unfold ofBlob
  cases Declarable.ofBlob (F := Fragment f.kind.kind) b <;> rfl

theorem ofBlob_emptied {fields others : List (String × Blob)}
    (h : Blob.EmptiedFields f.kind.keys f.key fields others) (shown : String) :
    ofBlob shown (.object others) = (ofBlob shown (.object fields)).map f.emptied := by
  rw [ofBlob_eq, ofBlob_eq, ofObject_emptied h]
  cases Declarable.ofBlob (F := Fragment f.kind.kind) (.object fields) <;> rfl

theorem apply_ofBlob?_of_emptied {b b' : Option Blob}
    (h : Blob.Emptied f.kind.keys f.key b b') (shown : String) (parent : Fragment f.kind.kind) :
    (ofBlob? shown b').map (s'.extractor.apply parent) =
      ((ofBlob? shown b).map (s.extractor.apply parent)).map f.emptied := by
  obtain ⟨fields, others, hExtended, rfl, hFields⟩ := h
  have hBefore : (ofBlob? shown b).map (s.extractor.apply parent) =
      (ofBlob? shown (some (.object fields))).map (s.extractor.apply parent) :=
    apply_ofBlob?_of_extended f.kind.neutral hExtended shown parent
  rw [hBefore, ofBlob?, ofBlob?, ofBlob_emptied hFields]
  cases ofBlob (F := Fragment f.kind.kind) shown (.object fields) with
  | error failure => rfl
  | ok child => exact congrArg Except.ok overlay_emptied

theorem step_of_kept (hKeeps : f.Keeps node) (hAt : EmptiedAt f s s' node) :
    s'.extractor.step parent node = (s.extractor.step parent node).map (put "" f) := by
  have hEmptied : f.emptied = put "" f := by
    funext fragment
    rw [emptied, if_neg hKeeps.plain]
  cases node with
  | defaults => exact hKeeps.elim
  | package name => exact hKeeps.elim
  | type declared => exact hEmptied ▸ apply_ofBlob?_of_emptied hAt declared.name parent
  | member m => exact hEmptied ▸ apply_ofBlob?_of_emptied hAt m.text parent

theorem step_of_dropped (hDrops : ¬ f.Keeps node) (hAt : EmptiedAt f s s' node) :
    s'.extractor.step parent node = s.extractor.step parent node := by
  have hQualifiers : ∀ outcome : Except Failure (Fragment f.kind.kind), f = .qualifiers →
      outcome.map f.emptied = outcome := by
    intro outcome hSame
    have hEmptied : f.emptied = id := by
      funext fragment
      rw [emptied, if_pos hSame]
      rfl
    rw [hEmptied]
    cases outcome <;> rfl
  cases node with
  | defaults => exact hAt.elim
  | package name =>
    obtain ⟨p, q, hExtended, hFound, hSet⟩ := hAt
    show (s'.ofPackage name).map _ = (s.ofPackage name).map _
    rw [ofPackage_eq, ofPackage_eq, hFound]
    simp only [ofProperties, ← ofProperties_emptied hSet]
    generalize s.properties? name = found at hExtended
    cases hExtended with
    | same => rfl
    | silent hSilent =>
      obtain ⟨d, hRead, hSame⟩ := f.kind.neutral.ofProperties p hSilent
      rw [hRead]
      exact congrArg Except.ok (hSame parent)
  | type declared =>
    exact (apply_ofBlob?_of_emptied hAt declared.name parent).trans
      (hQualifiers _ (not_not.mp hDrops))
  | member m =>
    exact (apply_ofBlob?_of_emptied hAt m.text parent).trans (hQualifiers _ (not_not.mp hDrops))

/-! ## What later nodes make of an empty field -/

/-- Whether a source declares a field at a node. -/
def Declares (f : ScalarField) (s : DeclaredSource (Fragment f.kind.kind)) (node : Node) : Prop :=
  ∃ child, s.extractor.contribution node = .ok (some child) ∧ (f.get child).isSome

variable {text : String}

theorem step_put_of_declares (hPlain : f ≠ .qualifiers) (h : Declares f s node) :
    s.extractor.step (put text f parent) node = s.extractor.step parent node := by
  obtain ⟨child, hChild, hField⟩ := h
  rw [Extractor.step, Extractor.step, hChild]
  exact congrArg Except.ok (put_overlay_of_declared hPlain hField)

theorem step_put_of_undeclared (hPlain : f ≠ .qualifiers) (h : ¬ Declares f s node) :
    s.extractor.step (put text f parent) node =
      (s.extractor.step parent node).map (put text f) := by
  rw [Extractor.step, Extractor.step]
  cases hContributed : s.extractor.contribution node with
  | error failure => rfl
  | ok contributed =>
    cases contributed with
    | none => rfl
    | some child =>
      have hField : f.get child = none := by
        rw [← Option.not_isSome_iff_eq_none]
        exact fun hSome => h ⟨child, hContributed, hSome⟩
      exact congrArg Except.ok (put_overlay_of_undeclared hPlain hField)

theorem foldFrom_put_of_undeclared (hPlain : f ≠ .qualifiers)
    (h : ∀ node ∈ nodes, ¬ Declares f s node) :
    s.extractor.foldFrom (put text f parent) nodes =
      (s.extractor.foldFrom parent nodes).map (put text f) := by
  induction nodes generalizing parent with
  | nil => rfl
  | cons node rest ih =>
    rw [Extractor.foldFrom, Extractor.foldFrom,
      step_put_of_undeclared hPlain (h node List.mem_cons_self)]
    cases s.extractor.step parent node with
    | error failure => rfl
    | ok next => exact ih fun later hLater => h later (List.mem_cons_of_mem node hLater)

theorem foldFrom_put_of_declared (hPlain : f ≠ .qualifiers)
    (h : ∃ node ∈ nodes, Declares f s node) :
    s.extractor.foldFrom (put text f parent) nodes = s.extractor.foldFrom parent nodes := by
  induction nodes generalizing parent with
  | nil => exact absurd h (by simp)
  | cons node rest ih =>
    rw [Extractor.foldFrom, Extractor.foldFrom]
    by_cases hNode : Declares f s node
    · rw [step_put_of_declares hPlain hNode]
    · have hRest : ∃ later ∈ rest, Declares f s later := by
        obtain ⟨later, hLater, hDeclares⟩ := h
        rcases List.mem_cons.mp hLater with rfl | hIn
        · exact absurd hDeclares hNode
        · exact ⟨later, hIn, hDeclares⟩
      rw [step_put_of_undeclared hPlain hNode]
      cases s.extractor.step parent node with
      | error failure => rfl
      | ok next => exact ih hRest

/-- A text put into a field at the end covers one that was put there before. -/
theorem foldFrom_put_put (hPlain : f ≠ .qualifiers) :
    (s.extractor.foldFrom (put text f parent) nodes).map (put text f) =
      (s.extractor.foldFrom parent nodes).map (put text f) := by
  by_cases hLater : ∃ node ∈ nodes, Declares f s node
  · rw [foldFrom_put_of_declared hPlain hLater]
  · have hNone : ∀ node ∈ nodes, ¬ Declares f s node :=
      fun node hNode hDeclares => hLater ⟨node, hNode, hDeclares⟩
    rw [foldFrom_put_of_undeclared hPlain hNone]
    cases s.extractor.foldFrom parent nodes with
    | error failure => rfl
    | ok fragment => exact congrArg Except.ok (put_put text)

/-! ## Empty declarations that show -/

/-- Whether a field is declared empty at a node where that counts, and no later node declares it. -/
def Hides (f : ScalarField) (s s' : DeclaredSource (Fragment f.kind.kind)) (nodes : List Node) :
    Prop :=
  ∃ front node back, nodes = front ++ node :: back ∧ f.Keeps node ∧ EmptiedAt f s s' node ∧
    ∀ later ∈ back, ¬ Declares f s later

theorem hides_cons {rest : List Node} :
    Hides f s s' (node :: rest) ↔
      (f.Keeps node ∧ EmptiedAt f s s' node ∧ ∀ later ∈ rest, ¬ Declares f s later) ∨
        Hides f s s' rest := by
  constructor
  · rintro ⟨front, pivot, back, hNodes, hKeeps, hAt, hLater⟩
    cases front with
    | nil =>
      cases hNodes
      exact .inl ⟨hKeeps, hAt, hLater⟩
    | cons first front =>
      cases hNodes
      exact .inr ⟨front, pivot, back, rfl, hKeeps, hAt, hLater⟩
  · rintro (⟨hKeeps, hAt, hLater⟩ | ⟨front, pivot, back, rfl, hHides⟩)
    · exact ⟨[], node, rest, rfl, hKeeps, hAt, hLater⟩
    · exact ⟨node :: front, pivot, back, rfl, hHides⟩

/-- A node either keeps an empty declaration of the field or is a step like that without it. -/
theorem step_of_emptied_or_agrees
    (h : AgreesAt f.kind.keys s s' node ∨ EmptiedAt f s s' node) :
    (f.Keeps node ∧ EmptiedAt f s s' node ∧ ∀ parent,
      s'.extractor.step parent node = (s.extractor.step parent node).map (put "" f)) ∨
    (¬ (f.Keeps node ∧ EmptiedAt f s s' node) ∧ ∀ parent,
      s'.extractor.step parent node = s.extractor.step parent node) := by
  by_cases hAt : EmptiedAt f s s' node
  · by_cases hKeeps : f.Keeps node
    · exact .inl ⟨hKeeps, hAt, fun parent => step_of_kept hKeeps hAt⟩
    · exact .inr ⟨fun hBoth => hKeeps hBoth.1, fun parent => step_of_dropped hKeeps hAt⟩
  · have hAgree := h.resolve_right hAt
    exact .inr ⟨fun hBoth => hAt hBoth.2,
      fun parent => (step_of_agrees f.kind.readsOnly hAgree parent).symm⟩

theorem foldFrom_of_not_hides
    (hNodes : ∀ node ∈ nodes, AgreesAt f.kind.keys s s' node ∨ EmptiedAt f s s' node)
    (h : ¬ Hides f s s' nodes) (parent : Fragment f.kind.kind) :
    s'.extractor.foldFrom parent nodes = s.extractor.foldFrom parent nodes := by
  induction nodes generalizing parent with
  | nil => rfl
  | cons node rest ih =>
    rw [hides_cons, not_or] at h
    obtain ⟨hShown, hRest⟩ := h
    have hFold := ih (fun later hLater => hNodes later (List.mem_cons_of_mem node hLater)) hRest
    rw [Extractor.foldFrom, Extractor.foldFrom]
    rcases step_of_emptied_or_agrees (hNodes node List.mem_cons_self) with
      ⟨hKeeps, hAt, hStep⟩ | ⟨-, hStep⟩
    · rw [hStep]
      cases s.extractor.step parent node with
      | error failure => rfl
      | ok next =>
        have hLater : ∃ later ∈ rest, Declares f s later := by
          by_contra hNone
          exact hShown ⟨hKeeps, hAt, fun later hLater hDeclares =>
            hNone ⟨later, hLater, hDeclares⟩⟩
        exact (hFold (put "" f next)).trans (foldFrom_put_of_declared hKeeps.plain hLater)
    · rw [hStep]
      cases s.extractor.step parent node with
      | error failure => rfl
      | ok next => exact hFold next

theorem foldFrom_of_hides
    (hNodes : ∀ node ∈ nodes, AgreesAt f.kind.keys s s' node ∨ EmptiedAt f s s' node)
    (h : Hides f s s' nodes) (parent : Fragment f.kind.kind) :
    s'.extractor.foldFrom parent nodes =
      (s.extractor.foldFrom parent nodes).map (put "" f) := by
  have hPlain : f ≠ .qualifiers := by
    obtain ⟨-, node, -, -, hKeeps, -⟩ := h
    exact hKeeps.plain
  induction nodes generalizing parent with
  | nil =>
    obtain ⟨front, node, back, hNil, -⟩ := h
    exact absurd hNil (by simp)
  | cons node rest ih =>
    have hLaterNodes := fun later hLater => hNodes later (List.mem_cons_of_mem node hLater)
    rw [Extractor.foldFrom, Extractor.foldFrom]
    by_cases hRest : Hides f s s' rest
    · have hFold := ih hLaterNodes hRest
      rcases step_of_emptied_or_agrees (hNodes node List.mem_cons_self) with
        ⟨-, -, hStep⟩ | ⟨-, hStep⟩
      · rw [hStep]
        cases s.extractor.step parent node with
        | error failure => rfl
        | ok next => exact (hFold (put "" f next)).trans (foldFrom_put_put hPlain)
      · rw [hStep]
        cases s.extractor.step parent node with
        | error failure => rfl
        | ok next => exact hFold next
    · -- the empty declaration that shows is the one at this node
      obtain ⟨hKeeps, hAt, hLater⟩ := (hides_cons.mp h).resolve_right hRest
      rw [step_of_kept hKeeps hAt]
      cases s.extractor.step parent node with
      | error failure => rfl
      | ok next =>
        exact (foldFrom_of_not_hides hLaterNodes hRest (put "" f next)).trans
          (foldFrom_put_of_undeclared hPlain hLater)

end DeclaredSource

/-! ## Resolutions -/

open DeclaredSource in
/-- Let two sources of a kind declare the same but for one field, which the second one declares to
be empty at nodes of a chain where the first one does not declare it. From an empty cache, the
chain's target resolves to the same just when no such declaration hides what is inherited, or only
another empty text. Where it hides something, the field ends up empty, and nothing else changes. -/
theorem empty_scalar_hides_iff (f : ScalarField) {events events' : List (Event Kind)}
    {b b' : ResolverBuilder Kind} (hb : b ∈ (World.empty.run events).builders)
    (hb' : b' ∈ (World.empty.run events').builders) (hRoot : b.root = b'.root) {id id' : Nat}
    {s s' : DeclaredSource (Fragment f.kind.kind)}
    (hs : ⟨id, f.kind.kind, s.extractor⟩ ∈ b.registrations)
    (hs' : ⟨id', f.kind.kind, s'.extractor⟩ ∈ b'.registrations) {target : Target} {c : Chain}
    (hc : Chain.ofTarget b.root target = .ok c)
    (hNodes : ∀ node ∈ c.nodes, AgreesAt f.kind.keys s s' node ∨ EmptiedAt f s s' node) :
    let plain := (b.build.resolve .empty target).outcome.map (·.get f.kind.kind)
    let emptied := (b'.build.resolve .empty target).outcome.map (·.get f.kind.kind)
    (emptied = plain ↔ (Hides f s s' c.nodes.eraseDups →
      ∀ fragment, plain = .ok (.ok fragment) → f.get fragment = some "")) ∧
    (Hides f s s' c.nodes.eraseDups → emptied = plain.map (·.map (ScalarField.put "" f))) := by
  intro plain emptied
  have hStart : s.defaults = s'.defaults :=
    (hNodes .defaults List.mem_cons_self).resolve_right fun hNever => hNever
  have hDistinct : ∀ node ∈ c.nodes.eraseDups,
      AgreesAt f.kind.keys s s' node ∨ EmptiedAt f s s' node :=
    fun node hNode => hNodes node (List.mem_eraseDups.mp hNode)
  have hPlain : plain = .ok (s.extractor.foldFrom s.defaults c.nodes.eraseDups) :=
    World.get_eq_fold hb hs s.extractor_byName hc
  have hEmptied : emptied = .ok (s'.extractor.foldFrom s.defaults c.nodes.eraseDups) :=
    hStart ▸ World.get_eq_fold hb' hs' s'.extractor_byName (hRoot ▸ hc)
  have hShown : Hides f s s' c.nodes.eraseDups →
      emptied = plain.map (·.map (ScalarField.put "" f)) := by
    intro hHides
    rw [hPlain, hEmptied, foldFrom_of_hides hDistinct hHides]
    rfl
  refine ⟨⟨?_, ?_⟩, hShown⟩
  · intro hSame hHides fragment hFragment
    have hPut := hSame.symm.trans (hShown hHides)
    rw [hFragment] at hPut
    exact ScalarField.put_eq_self_iff.mp (Except.ok.inj (Except.ok.inj hPut)).symm
  · intro hEmpty
    by_cases hHides : Hides f s s' c.nodes.eraseDups
    · rw [hShown hHides]
      cases hFold : s.extractor.foldFrom s.defaults c.nodes.eraseDups with
      | error failure =>
        rw [hPlain, hFold]
        rfl
      | ok fragment =>
        have hFragment : plain = .ok (.ok fragment) := by rw [hPlain, hFold]
        have hSame := ScalarField.put_eq_self_iff.mpr (hEmpty hHides fragment hFragment)
        rw [hFragment]
        exact congrArg (Except.ok ∘ Except.ok) hSame
    · rw [hPlain, hEmptied, foldFrom_of_not_hides hDistinct hHides]

namespace Fixture

/-- A manifest for all types that inherit from one. -/
def manifestSource : DeclaredSource ResourceLookup where
  metadata := Metadata.empty.insertType "org.Base" (.object [("manifest", .text "m.xml")])
  properties := none
  defaults := .empty

/-- The same, with an empty manifest at a type further down. -/
def blankSource : DeclaredSource ResourceLookup where
  metadata := manifestSource.metadata.insertType "org.Leaf" (.object [("manifest", .text "")])
  properties := none
  defaults := .empty

theorem blankSource_emptiedAt {declared : DeclaredType} (h : declared.name = "org.Leaf") :
    DeclaredSource.EmptiedAt .manifest manifestSource blankSource (.type declared) := by
  have hOthers : Blob.EmptiedFields DeclaredKind.resources.keys "manifest" []
      [("manifest", .text "")] := by
    refine ⟨rfl, rfl, fun other _ hOther => ?_⟩
    simp [Blob.declared?, Table.find?, Ne.symm hOther]
  refine ⟨[], [("manifest", .text "")], ?_, ?_, hOthers⟩
  · rw [Metadata.ofType?, h]
    exact .silent fun _ _ => rfl
  · rw [Metadata.ofType?, h]
    rfl

theorem blankSource_at (node : Node) :
    DeclaredSource.AgreesAt DeclaredKind.resources.keys manifestSource blankSource node ∨
      DeclaredSource.EmptiedAt .manifest manifestSource blankSource node := by
  cases node with
  | defaults => exact .inl rfl
  | package name => exact .inl (.same _)
  | type declared =>
    by_cases hLeaf : declared.name = "org.Leaf"
    · exact .inr (blankSource_emptiedAt hLeaf)
    · have hSame : blankSource.metadata.ofType? declared =
          manifestSource.metadata.ofType? declared :=
        (Table.get?_insert _ _ _ _).trans (if_neg (Ne.symm hLeaf))
      refine .inl ?_
      show Blob.Alike _ _ (blankSource.metadata.ofType? declared)
      rw [hSame]
      exact .same _
  | member m => exact .inl (.same _)

theorem blankSource_hides :
    DeclaredSource.Hides .manifest manifestSource blankSource smallChain.nodes.eraseDups := by
  refine ⟨[.defaults, .package "", .package "org", .type ⟨"org.Base", "org"⟩],
    .type ⟨"org.Leaf", "org"⟩, [.member ⟨"org.Base", "runs"⟩], by decide, nofun,
    blankSource_emptiedAt rfl, ?_⟩
  rintro later hLater ⟨child, hChild, -⟩
  obtain rfl := List.mem_singleton.mp hLater
  cases hChild

end Fixture

theorem empty_scalar_hides_iff_of_blank :
    DeclaredSource.Hides .manifest Fixture.manifestSource Fixture.blankSource
        Fixture.smallChain.nodes.eraseDups ∧
      ((Fixture.soleBuilder .resources Fixture.blankSource.extractor).build.resolve .empty
        Fixture.smallTarget).outcome.map (·.get Kind.resources) =
        .ok (.ok ⟨some "", none, none, none, .unset⟩) := by
  obtain ⟨-, hShown⟩ := empty_scalar_hides_iff .manifest
    (Fixture.soleBuilder_mem .resources Fixture.manifestSource.extractor)
    (Fixture.soleBuilder_mem .resources Fixture.blankSource.extractor) (by simp)
    (Fixture.mem_soleBuilder .resources Fixture.manifestSource.extractor)
    (Fixture.mem_soleBuilder .resources Fixture.blankSource.extractor)
    Fixture.smallChain_ofTarget fun node _ => Fixture.blankSource_at node
  exact ⟨Fixture.blankSource_hides, hShown Fixture.blankSource_hides⟩

/-- The empty manifest takes the place of the one that is inherited without it. -/
theorem empty_scalar_hides_manifest :
    ((Fixture.soleBuilder .resources Fixture.manifestSource.extractor).build.resolve .empty
        Fixture.smallTarget).outcome.map (·.get Kind.resources) =
        .ok (.ok ⟨some "m.xml", none, none, none, .unset⟩) ∧
      ((Fixture.soleBuilder .resources Fixture.blankSource.extractor).build.resolve .empty
        Fixture.smallTarget).outcome.map (·.get Kind.resources) =
        .ok (.ok ⟨some "", none, none, none, .unset⟩) := by
  constructor <;> rfl

end Heritage
