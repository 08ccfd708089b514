import Heritage.DeclaredForm
import Heritage.Proofs.Locality
import Heritage.Proofs.PropertyText
import Heritage.Proofs.TableKeys
import Mathlib.Data.List.DropRight
import Mathlib.Data.List.Nodup
import Mathlib.Data.Option.Basic

/-!
# Declarations in two forms

The same declaration can stand in the blob of a type and in the property file of a package. Blobs
and properties are read by readers that have nothing in common, and they give the same.

* `listEntries_intercalate`, `word_toString`: lists and numbers survive being written as one text;
* `Fields.InObject`, `Fields.InProperties`: what the readers of a kind need to find in an object or
  a property set, and `inObject_of_perm`, `inProperties_of_perm`: that it is there, in whatever
  order the fields were written;
* `DeclaredKind.reads`: the readers of each kind find the declaration again;
* `declared_forms_agree`: a type and a package with the same declaration contribute the same.
-/

namespace Heritage

open Text

/-! ## Blanks at the end -/

theorem Text.trimEnd_eq_reverse (text : List Char) :
    trimEnd text = (trimStart text.reverse).reverse := rfl

theorem Text.trimEnd_eq_self_iff {text : List Char} :
    trimEnd text = text ↔ ∀ c, text.getLast? = some c → isBlank c = false := by
  rw [trimEnd_eq_reverse, List.reverse_eq_iff, trimStart_eq_self_iff, List.head?_reverse]

theorem Text.trimEnd_append {back : List Char} (hFilled : back ≠ []) (h : trimEnd back = back)
    (front : List Char) : trimEnd (front ++ back) = front ++ back := by
  rw [trimEnd_eq_self_iff] at h ⊢
  rwa [List.getLast?_append_of_ne_nil front hFilled]

theorem Text.trimEnd_of_trim {text : List Char} (h : trim text = text) : trimEnd text = text := by
  have hEnd : trimEnd (trim text) = trim text :=
    List.rdropWhile_idempotent isBlank (trimStart text)
  rwa [h] at hEnd

/-! ## Lists in one text -/

theorem exists_intercalate_concat (separator : List Char) (front : List (List Char))
    (last : List Char) : ∃ before, separator.intercalate (front ++ [last]) = before ++ last := by
  induction front with
  | nil => exact ⟨[], by simp⟩
  | cons first rest ih =>
    obtain ⟨before, hBefore⟩ := ih
    obtain ⟨second, others, hRest⟩ := List.exists_cons_of_ne_nil
      (List.append_ne_nil_of_right_ne_nil rest (List.cons_ne_nil last []))
    refine ⟨first ++ separator ++ before, ?_⟩
    rw [List.cons_append, hRest, List.intercalate_cons_cons, ← hRest, hBefore]
    simp only [List.append_assoc]

namespace FieldValue

theorem IsListEntry.toList_ne_nil {s : String} (h : IsListEntry s) : s.toList ≠ [] :=
  fun hNil => h.1 (String.toList_eq_nil_iff.mp hNil)

theorem IsListEntry.isScalar {s : String} (h : IsListEntry s) : IsScalar s :=
  ⟨h.1, trimEnd_of_trim h.2.1⟩

theorem IsScalar.trimmed_eq {s : String} (h : IsScalar s) : Properties.trimmed s = s := by
  rw [Properties.trimmed, h.2, String.ofList_toList]

theorem trimmed_intercalate {texts : List String} (h : ∀ s ∈ texts, IsListEntry s) :
    Properties.trimmed (",".intercalate texts) = ",".intercalate texts := by
  rcases List.eq_nil_or_concat texts with rfl | ⟨front, last, rfl⟩
  · rfl
  · have hLast : IsListEntry last := h last (by simp)
    obtain ⟨before, hBefore⟩ :=
      exists_intercalate_concat ",".toList (front.map String.toList) last.toList
    rw [Properties.trimmed, String.toList_intercalate, List.concat_eq_append, List.map_append,
      List.map_singleton, hBefore, trimEnd_append hLast.toList_ne_nil hLast.isScalar.2, ← hBefore]
    apply String.toList_inj.mp
    rw [String.toList_ofList, String.toList_intercalate, List.map_append, List.map_singleton]

theorem listEntries_intercalate {texts : List String} (h : ∀ s ∈ texts, IsListEntry s) :
    Properties.listEntries (",".intercalate texts) = texts := by
  by_cases hNil : texts = []
  · subst hNil
    rfl
  · have hSplit : (",".intercalate texts).toList.splitOn ',' = texts.map String.toList := by
      rw [String.toList_intercalate]
      refine List.splitOn_intercalate ',' ?_ (by simpa using hNil)
      intro l hl
      obtain ⟨s, hs, rfl⟩ := List.mem_map.mp hl
      exact (h s hs).2.2
    have hTrim : (texts.map String.toList).map trim = texts.map String.toList := by
      rw [List.map_map]
      exact List.map_congr_left fun s hs => (h s hs).2.1
    have hFilled : (texts.map String.toList).filter (!·.isEmpty) = texts.map String.toList := by
      refine List.filter_eq_self.mpr fun l hl => ?_
      obtain ⟨s, hs, rfl⟩ := List.mem_map.mp hl
      simpa using (h s hs).toList_ne_nil
    rw [Properties.listEntries, hSplit, hTrim, hFilled, List.map_map]
    simp

/-! ## Numbers -/

theorem toList_toString (n : UInt32) : (toString n).toList = Nat.toDigits 10 n.toNat :=
  Nat.toList_repr

theorem isBlank_of_isDigit {c : Char} (h : c.isDigit = true) : isBlank c = false := by
  have hRange : 48 ≤ c.toNat ∧ c.toNat ≤ 57 := by
    simpa [Char.isDigit, UInt32.le_iff_toNat_le] using h
  simp only [isBlank, Bool.or_eq_false_iff, Bool.and_eq_false_iff, decide_eq_false_iff_not,
    beq_eq_false_iff_ne]
  omega

theorem isListEntry_toString (n : UInt32) : IsListEntry (toString n) := by
  have hDigits : ∀ c ∈ (toString n).toList, c.isDigit = true := fun c hc =>
    Nat.isDigit_of_mem_toDigits (by omega) (by omega) (toList_toString n ▸ hc)
  have hBlank : ∀ c ∈ (toString n).toList, isBlank c = false := fun c hc =>
    isBlank_of_isDigit (hDigits c hc)
  refine ⟨fun hEmpty => ?_, ?_, fun hComma => ?_⟩
  · have hNil : Nat.toDigits 10 n.toNat = [] := by rw [← toList_toString, hEmpty]; rfl
    exact Nat.toDigits_ne_nil hNil
  · have hStart : trimStart (toString n).toList = (toString n).toList :=
      trimStart_eq_self_iff.mpr fun c hc => hBlank c (List.mem_of_mem_head? hc)
    rw [trim, hStart]
    exact trimEnd_eq_self_iff.mpr fun c hc => hBlank c (List.mem_of_getLast? hc)
  · have hDigit := hDigits ',' hComma
    revert hDigit
    decide

theorem word_toString (n : UInt32) : ValueReader.word (toString n) = .ok n := by
  have hRead : (IntegerRange.unsigned 32).read (toString n).toList = .ok (n.toNat : Int) := by
    have hHigh := n.toNat_lt
    rw [toList_toString]
    exact IntegerRange.read_toDigits (by decide) (by simp [IntegerRange.unsigned]; omega)
  rw [ValueReader.word, ValueReader.integer, hRead]
  simp [Except.map, Except.mapError]

end FieldValue

/-! ## Fields that are found again -/

namespace Fields

variable {β : Type} {form : FieldValue → β} {fields : Fields}

theorem mem_written {key : String} {b : β} :
    (key, b) ∈ written form fields ↔ ∃ value, (key, some value) ∈ fields ∧ form value = b := by
  rw [written, List.mem_filterMap]
  constructor
  · rintro ⟨⟨k, value?⟩, hMem, hForm⟩
    obtain ⟨value, rfl, hPair⟩ := Option.map_eq_some_iff.mp hForm
    obtain ⟨rfl, rfl⟩ := Prod.mk.inj hPair
    exact ⟨value, hMem, rfl⟩
  · rintro ⟨value, hMem, rfl⟩
    exact ⟨_, hMem, rfl⟩

theorem written_keys_sublist (form : FieldValue → β) (fields : Fields) :
    ((written form fields).map Prod.fst).Sublist (fields.map Prod.fst) := by
  induction fields with
  | nil => exact List.Sublist.refl []
  | cons field rest ih =>
    obtain ⟨key, value?⟩ := field
    cases value? with
    | none => exact ih.cons key
    | some value => exact ih.cons_cons key

theorem find?_of_perm (hKeys : (fields.map Prod.fst).Nodup) {pairs : List (String × β)}
    (hPairs : pairs.Perm (written form fields)) {field : String × Option FieldValue}
    (h : field ∈ fields) : Table.find? field.1 pairs = field.2.map form := by
  have hNodup : (pairs.map Prod.fst).Nodup :=
    ((hPairs.map Prod.fst).nodup_iff).mpr (hKeys.sublist (written_keys_sublist form fields))
  have hFind : ∀ b, Table.find? field.1 pairs = some b ↔ field.2.map form = some b := by
    intro b
    rw [Table.find?_eq_some_iff hNodup, hPairs.mem_iff, mem_written, Option.map_eq_some_iff]
    refine exists_congr fun value => and_congr_left fun _ => ⟨fun hMem => ?_, fun hValue => ?_⟩
    · have hSame := List.inj_on_of_nodup_map hKeys h hMem rfl
      rw [hSame]
    · rw [← hValue]
      exact h
  exact Option.ext hFind

/-- The fields of an object are those of a declaration, as blobs. -/
def InObject (fields : Fields) (object : List (String × Blob)) : Prop :=
  ∀ field ∈ fields, Table.find? field.1 object = field.2.map FieldValue.blob

/-- The values of properties are those of a declaration, as texts. -/
def InProperties (fields : Fields) (p : Properties) : Prop :=
  ∀ field ∈ fields, p.get? field.1 =
    field.2.map fun value => Properties.trimmed value.property

theorem inObject_cons {key : String} {value? : Option FieldValue} {object : List (String × Blob)} :
    InObject ((key, value?) :: fields) object ↔
      Table.find? key object = value?.map FieldValue.blob ∧ InObject fields object :=
  List.forall_mem_cons

theorem inProperties_cons {key : String} {value? : Option FieldValue} {p : Properties} :
    InProperties ((key, value?) :: fields) p ↔
      p.get? key = (value?.map fun value => Properties.trimmed value.property) ∧
        InProperties fields p :=
  List.forall_mem_cons

theorem expressible_cons {key : String} {value? : Option FieldValue} :
    Expressible ((key, value?) :: fields) ↔
      (∀ value ∈ value?, value.Expressible) ∧ Expressible fields :=
  List.forall_mem_cons

theorem inObject_of_perm (hKeys : (fields.map Prod.fst).Nodup) {object : List (String × Blob)}
    (h : object.Perm (written FieldValue.blob fields)) : fields.InObject object :=
  fun _ hField => find?_of_perm hKeys h hField

theorem inProperties_of_perm (hKeys : (fields.map Prod.fst).Nodup)
    (hFilled : ∀ field ∈ fields, field.1 ≠ "") {entries : List (String × String)}
    (h : entries.Perm (written FieldValue.property fields)) :
    fields.InProperties (Properties.parse (Properties.print entries)) := by
  have hNames : ∀ e ∈ entries, e.1 ≠ "" := by
    rintro ⟨key, text⟩ hMem
    obtain ⟨value, hField, -⟩ := mem_written.mp (h.mem_iff.mp hMem)
    exact hFilled _ hField
  intro field hField
  have hFound := find?_of_perm hKeys (entries.reverse_perm.trans h) hField
  rw [Table.find?_eq_find?] at hFound
  rw [Properties.get?_parse_print hNames]
  calc (entries.reverse.find? (·.1 = field.1)).map (fun e => Properties.trimmed e.2)
      = ((entries.reverse.find? (·.1 = field.1)).map Prod.snd).map Properties.trimmed := by
        rw [Option.map_map]
        rfl
    _ = field.2.map fun value => Properties.trimmed value.property := by
        rw [hFound, Option.map_map]
        rfl

end Fields

/-! ## Readers of fields -/

section

variable {object : List (String × Blob)} {p : Properties} {key : String}

theorem Blob.field_of_find? {α : Type} {reader : Blob.Reader α} {form : α → FieldValue}
    (hRead : ∀ a, Blob.optional reader (form a).blob = .ok (some a)) {value? : Option α}
    (h : Table.find? key object = (value?.map form).map FieldValue.blob) :
    Blob.field object key reader = .ok value? := by
  rw [Blob.field, h]
  cases value? with
  | none => rfl
  | some a => exact hRead a

theorem Blob.word_blob (n : UInt32) : Blob.word (.integer n.toNat) = .ok n := by
  have hRange := n.toNat_lt
  simp [Blob.word]
  omega

theorem mapM_map_of_ok {α β ε : Type} {f : α → Except ε β} {g : β → α} (h : ∀ b, f (g b) = .ok b)
    (bs : List β) : (bs.map g).mapM f = .ok bs := by
  induction bs with
  | nil => rfl
  | cons b rest ih =>
    rw [List.map_cons, List.mapM_cons, h, ih]
    rfl

theorem Blob.optional_word (n : UInt32) :
    Blob.optional Blob.word (FieldValue.word n).blob = .ok (some n) := by
  show (Blob.word (.integer n.toNat)).map some = _
  rw [Blob.word_blob]
  rfl

theorem Blob.optional_words (ns : List UInt32) :
    Blob.optional (Blob.listOf Blob.word) (FieldValue.words ns).blob = .ok (some ns) := by
  show ((ns.map fun n => Blob.integer n.toNat).mapM Blob.word).map some = _
  rw [mapM_map_of_ok Blob.word_blob]
  rfl

theorem Blob.optional_texts (ss : List String) :
    Blob.optional (Blob.listOf Blob.string) (FieldValue.texts ss).blob = .ok (some ss) := by
  have hRead : (ss.map Blob.text).mapM Blob.string = .ok ss :=
    mapM_map_of_ok (f := Blob.string) (g := Blob.text) (fun _ => rfl) ss
  show ((ss.map Blob.text).mapM Blob.string).map some = _
  rw [hRead]
  rfl

namespace Properties

theorem string?_of_get? {s? : Option String} (hScalar : ∀ s ∈ s?, FieldValue.IsScalar s)
    (h : p.get? key = s?.map trimmed) : p.string? key = s? := by
  cases s? with
  | none => rw [string?, h]; rfl
  | some s =>
    have hs := hScalar s rfl
    rw [string?, h, Option.map_some, hs.trimmed_eq]
    simp [hs.1]

theorem list?_of_get? {ss? : Option (List String)}
    (hEntries : ∀ ss ∈ ss?, ∀ s ∈ ss, FieldValue.IsListEntry s)
    (h : p.get? key = ss?.map fun ss => trimmed (",".intercalate ss)) : p.list? key = ss? := by
  cases ss? with
  | none => rw [list?, h]; rfl
  | some ss =>
    have hss := hEntries ss rfl
    rw [list?, h, Option.map_some, Option.map_some, FieldValue.trimmed_intercalate hss,
      FieldValue.listEntries_intercalate hss]

theorem readOne_word (key : String) (n : UInt32) :
    readOne ValueReader.word key (toString n) = .ok n := by
  rw [readOne, FieldValue.word_toString]
  rfl

theorem value?_of_get? {n? : Option UInt32}
    (h : p.get? key = n?.map fun n => trimmed (toString n)) :
    p.value? ValueReader.word key = .ok n? := by
  have hText : p.string? key = n?.map toString := by
    apply string?_of_get?
    · intro s hs
      obtain ⟨n, -, rfl⟩ := Option.map_eq_some_iff.mp hs
      exact (FieldValue.isListEntry_toString n).isScalar
    · rw [h, Option.map_map]
      rfl
  rw [value?, hText]
  cases n? with
  | none => rfl
  | some n =>
    show (readOne ValueReader.word key (toString n)).map some = _
    rw [readOne_word]
    rfl

theorem values?_of_get? {ns? : Option (List UInt32)}
    (h : p.get? key = ns?.map fun ns => trimmed (",".intercalate (ns.map toString))) :
    p.values? ValueReader.word key = .ok ns? := by
  have hTexts : p.list? key = ns?.map fun ns => ns.map toString := by
    apply list?_of_get?
    · intro ss hss s hs
      obtain ⟨ns, -, rfl⟩ := Option.map_eq_some_iff.mp hss
      obtain ⟨n, -, rfl⟩ := List.mem_map.mp hs
      exact FieldValue.isListEntry_toString n
    · rw [h, Option.map_map]
      rfl
  rw [values?, hTexts]
  cases ns? with
  | none => rfl
  | some ns =>
    show ((ns.map toString).mapM (readOne ValueReader.word key)).map some = _
    rw [mapM_map_of_ok (readOne_word key)]
    rfl

end Properties

end

/-! ## The kinds -/

/-- Both readers of a kind find a declaration in the fields that it is written as. -/
structure Declarable.Reads (F : Type) [Declarable F] (fields : Declaration F → Fields) : Prop where
  keys_nodup : ∀ d, ((fields d).map Prod.fst).Nodup
  keys_filled : ∀ d, ∀ field ∈ fields d, field.1 ≠ ""
  ofObject_eq : ∀ d object, (fields d).InObject object → ofBlob (F := F) (.object object) = .ok d
  ofProperties_eq : ∀ d p, (fields d).Expressible → (fields d).InProperties p →
    ofProperties (F := F) p = .ok d

namespace DeclaredKind

theorem sdk_reads : Declarable.Reads SdkChoice SdkChoice.Declaration.fields where
  keys_nodup d := by
    show ["sdk", "minSdk", "maxSdk"].Nodup
    decide
  keys_filled d := by simp [SdkChoice.Declaration.fields]
  ofObject_eq d object h := by
    simp only [SdkChoice.Declaration.fields, Fields.inObject_cons] at h
    obtain ⟨hLevels, hLowest, hHighest, -⟩ := h
    show SdkChoice.Declaration.ofFields object = _
    rw [SdkChoice.Declaration.ofFields, Blob.field_of_find? Blob.optional_word hHighest,
      Blob.field_of_find? Blob.optional_word hLowest,
      Blob.field_of_find? Blob.optional_words hLevels]
    rfl
  ofProperties_eq d p _ h := by
    simp only [SdkChoice.Declaration.fields, Fields.inProperties_cons, Option.map_map] at h
    obtain ⟨hLevels, hLowest, hHighest, -⟩ := h
    show SdkChoice.Declaration.ofProperties p = _
    rw [SdkChoice.Declaration.ofProperties, Properties.values?_of_get? hLevels,
      Properties.value?_of_get? hLowest, Properties.value?_of_get? hHighest]
    rfl

theorem resources_reads :
    Declarable.Reads ResourceLookup ResourceLookup.Declaration.fields where
  keys_nodup d := by
    show ["manifest", "resourceDir", "assetDir", "packageName", "libraries"].Nodup
    decide
  keys_filled d := by simp [ResourceLookup.Declaration.fields]
  ofObject_eq d object h := by
    simp only [ResourceLookup.Declaration.fields, Fields.inObject_cons] at h
    obtain ⟨hManifest, hResources, hAssets, hPackage, hLibraries, -⟩ := h
    show ResourceLookup.Declaration.ofFields object = _
    rw [ResourceLookup.Declaration.ofFields, Blob.field_of_find? (fun _ => rfl) hAssets,
      Blob.field_of_find? Blob.optional_texts hLibraries,
      Blob.field_of_find? (fun _ => rfl) hManifest, Blob.field_of_find? (fun _ => rfl) hPackage,
      Blob.field_of_find? (fun _ => rfl) hResources]
    rfl
  ofProperties_eq d p hExpressible h := by
    simp only [ResourceLookup.Declaration.fields, Fields.inProperties_cons, Option.map_map] at h
    simp only [ResourceLookup.Declaration.fields, Fields.expressible_cons, Option.forall_mem_map,
      FieldValue.Expressible] at hExpressible
    obtain ⟨hManifest, hResources, hAssets, hPackage, hLibraries, -⟩ := h
    obtain ⟨hManifest', hResources', hAssets', hPackage', hLibraries', -⟩ := hExpressible
    refine congrArg Except.ok ?_
    rw [ResourceLookup.Declaration.ofProperties, Properties.string?_of_get? hManifest' hManifest,
      Properties.string?_of_get? hResources' hResources,
      Properties.string?_of_get? hAssets' hAssets, Properties.string?_of_get? hPackage' hPackage,
      Properties.list?_of_get? hLibraries' hLibraries]
    rfl

theorem runtime_reads : Declarable.Reads RuntimeSetup RuntimeSetup.Declaration.fields where
  keys_nodup d := by
    show ["qualifiers", "application", "shadows", "instrumentedPackages"].Nodup
    decide
  keys_filled d := by simp [RuntimeSetup.Declaration.fields]
  ofObject_eq d object h := by
    simp only [RuntimeSetup.Declaration.fields, Fields.inObject_cons] at h
    obtain ⟨hQualifiers, hApplication, hShadows, hPackages, -⟩ := h
    show RuntimeSetup.Declaration.ofFields object = _
    rw [RuntimeSetup.Declaration.ofFields, Blob.field_of_find? (fun _ => rfl) hApplication,
      Blob.field_of_find? Blob.optional_texts hPackages,
      Blob.field_of_find? (fun _ => rfl) hQualifiers,
      Blob.field_of_find? Blob.optional_texts hShadows]
    rfl
  ofProperties_eq d p hExpressible h := by
    simp only [RuntimeSetup.Declaration.fields, Fields.inProperties_cons, Option.map_map] at h
    simp only [RuntimeSetup.Declaration.fields, Fields.expressible_cons, Option.forall_mem_map,
      FieldValue.Expressible] at hExpressible
    obtain ⟨hQualifiers, hApplication, hShadows, hPackages, -⟩ := h
    obtain ⟨hQualifiers', hApplication', hShadows', hPackages', -⟩ := hExpressible
    refine congrArg Except.ok ?_
    rw [RuntimeSetup.Declaration.ofProperties,
      Properties.string?_of_get? hQualifiers' hQualifiers,
      Properties.string?_of_get? hApplication' hApplication,
      Properties.list?_of_get? hShadows' hShadows, Properties.list?_of_get? hPackages' hPackages]
    rfl

def fields : (d : DeclaredKind) → Declarable.Declaration (Fragment d.kind) → Fields
  | .sdk, declaration => SdkChoice.Declaration.fields declaration
  | .resources, declaration => ResourceLookup.Declaration.fields declaration
  | .runtime, declaration => RuntimeSetup.Declaration.fields declaration

theorem reads (d : DeclaredKind) : Declarable.Reads (Fragment d.kind) d.fields := by
  cases d with
  | sdk => exact sdk_reads
  | resources => exact resources_reads
  | runtime => exact runtime_reads

end DeclaredKind

/-! ## Types and packages -/

/-- Take a declaration whose values properties can hold. Written as an object for a type, and as a
property file for a package, it contributes the same fragment at both, and neither fails. The fields
may be written in any order. -/
theorem declared_forms_agree (d : DeclaredKind)
    (declaration : Declarable.Declaration (Fragment d.kind))
    (hExpressible : (d.fields declaration).Expressible)
    {object : List (String × Blob)}
    (hObject : object.Perm ((d.fields declaration).written FieldValue.blob))
    {entries : List (String × String)}
    (hEntries : entries.Perm ((d.fields declaration).written FieldValue.property))
    {s s' : DeclaredSource (Fragment d.kind)} {type : DeclaredType} {package : String}
    (hType : s.metadata.ofType? type = some (.object object)) {file : Resource.PropertyFile}
    (hFile : s'.properties = some file)
    (hLoad : file.load (file.path package) = .ok (some (Properties.print entries))) :
    s.extractor.contribution (.type type) =
        .ok (some (Declarable.ofDeclaration declaration)) ∧
      s'.extractor.contribution (.package package) =
        .ok (some (Declarable.ofDeclaration declaration)) := by
  have hKeys := d.reads.keys_nodup declaration
  have hBlob := d.reads.ofObject_eq declaration object (Fields.inObject_of_perm hKeys hObject)
  have hProperties := d.reads.ofProperties_eq declaration _ hExpressible
    (Fields.inProperties_of_perm hKeys (d.reads.keys_filled declaration) hEntries)
  constructor
  · show DeclaredSource.ofBlob? type.name (s.metadata.ofType? type) = _
    rw [hType, DeclaredSource.ofBlob?, DeclaredSource.ofBlob, hBlob]
    rfl
  · have hFound : s'.properties? package = .ok (some (.parse (Properties.print entries))) := by
      rw [DeclaredSource.properties?, hFile]
      show (file.load (file.path package)).map _ = _
      rw [hLoad]
      rfl
    show s'.ofPackage package = _
    rw [DeclaredSource.ofPackage_eq, hFound]
    show (DeclaredSource.ofProperties package _).map some = _
    rw [DeclaredSource.ofProperties, hProperties]
    rfl

namespace Fixture

/-- A declaration with marks of property files in its texts, and lists that need care: one without
entries, and one with two. -/
def markedSetup : RuntimeSetup.Declaration where
  qualifiers := some "+land #x"
  application := some " lead\\"
  shadows := some []
  instrumentedPackages := some ["a:b", "!c = d"]

def markedFields : List (String × FieldValue) :=
  [("shadows", .texts []), ("application", .text " lead\\"),
    ("instrumentedPackages", .texts ["a:b", "!c = d"]), ("qualifiers", .text "+land #x")]

def markedEntries : List (String × String) :=
  markedFields.map fun field => (field.1, field.2.property)

def markedObject : List (String × Blob) :=
  (markedFields.map fun field => (field.1, field.2.blob)).reverse

/-- A source with the object at the type `org.Base`. -/
def markedMetadata : DeclaredSource RuntimeSetup where
  metadata := Metadata.empty.insertType "org.Base" (.object markedObject)
  properties := none
  defaults := .empty

/-- A source with the entries in the property file of the package `org`. -/
def markedProperties : DeclaredSource RuntimeSetup where
  metadata := .empty
  properties := some ⟨(Resource.Store.ofList
    [("org/config.properties", Properties.print markedEntries)]).loader, Resource.defaultFileName⟩
  defaults := .empty

theorem markedSetup_expressible : (DeclaredKind.runtime.fields markedSetup).Expressible := by
  simp only [DeclaredKind.fields, RuntimeSetup.Declaration.fields, markedSetup,
    Fields.Expressible, FieldValue.Expressible]
  simp [FieldValue.IsScalar, FieldValue.IsListEntry]
  decide

theorem markedFields_perm {β : Type} (form : FieldValue → β) :
    (markedFields.map fun field => (field.1, form field.2)).Perm
      ((DeclaredKind.runtime.fields markedSetup).written form) := by
  have hPerm : markedFields.Perm [("qualifiers", .text "+land #x"),
      ("application", .text " lead\\"), ("shadows", .texts []),
      ("instrumentedPackages", .texts ["a:b", "!c = d"])] := by decide
  exact hPerm.map fun field => (field.1, form field.2)

end Fixture

open Fixture in
theorem declared_forms_agree_of_marked :
    markedMetadata.extractor.contribution (.type (.ofName "org.Base")) =
        .ok (some (Declarable.ofDeclaration markedSetup)) ∧
      markedProperties.extractor.contribution (.package "org") =
        .ok (some (Declarable.ofDeclaration markedSetup)) := by
  have hLoad : ∀ path, Resource.locate "org/config.properties" = Resource.locate path →
      (Resource.Store.ofList [("org/config.properties", Properties.print markedEntries)]).loader
        path = .ok (some (Properties.print markedEntries)) := by
    intro path hPath
    have hGet := Resource.Store.get?_insert .empty "org/config.properties" path
      (Properties.print markedEntries)
    rw [if_pos hPath] at hGet
    exact congrArg Except.ok hGet
  exact declared_forms_agree .runtime markedSetup markedSetup_expressible
    ((List.reverse_perm _).trans (markedFields_perm FieldValue.blob))
    (markedFields_perm FieldValue.property) rfl rfl (hLoad _ (by decide))

end Heritage
