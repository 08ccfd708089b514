import Heritage.Proofs.SettingsFile
import Heritage.Settings.Basic
import Mathlib.Data.List.DropRight

/-!
# Settings in layers

A variable of the environment is for a field if its name is the common start and the key of that
field, in letters of any case and with blanks around both. What the environment sets a field to
hides what the file holds for it, and what the file holds hides the default. Values that are hidden
may have any shape. Names with dots, which lead into a field instead of setting it, are left out.

* `Environment.IsFor`, `valueFor?_of_isFor`, `valueFor?_of_not_isFor`: the names that are for a
  field are the ones that the reader of names takes;
* `Environment.Sets`: the last variable for a field sets it; where names differ in more than case
  and blanks there is only one, as in `sets_of_only`;
* `Chosen`, `chosen_iff`: the choice for a field, layer by layer;
* `FollowsChoices`: what the choices for all fields make of the settings, or which fault they raise;
* `layers_override`: loading follows the choices, and depends on nothing else.
-/

namespace Heritage

/-! ## Blanks and letters -/

namespace Text

theorem isBlank_of_visible {c : Char} (hLow : 0x21 ≤ c.toNat) (hHigh : c.toNat ≤ 0x7E) :
    isBlank c = false := by
  simp only [isBlank, Bool.or_eq_false_iff, Bool.and_eq_false_iff, decide_eq_false_iff_not,
    beq_eq_false_iff_ne]
  omega

theorem toLower_cases (c : Char) :
    c.toLower = c ∨ (0x41 ≤ c.toNat ∧ c.toNat ≤ 0x5A ∧ c.toLower.toNat = c.toNat + 0x20) := by
  by_cases h : c.val ≥ 'A'.val ∧ c.val ≤ 'Z'.val
  · have hLow : 0x41 ≤ c.val.toNat := UInt32.le_iff_toNat_le.mp h.1
    have hHigh : c.val.toNat ≤ 0x5A := UInt32.le_iff_toNat_le.mp h.2
    refine .inr ⟨hLow, hHigh, ?_⟩
    have hSmall : c.toLower.val = c.val + 32 := congrArg Char.val (dif_pos h)
    rw [Char.toNat, hSmall, UInt32.toNat_add]
    exact Nat.mod_eq_of_lt (by change c.val.toNat + 32 < 2 ^ 32; omega)
  · exact .inl (dif_neg h)

theorem isBlank_toLower (c : Char) : isBlank c.toLower = isBlank c := by
  rcases toLower_cases c with h | ⟨hLow, hHigh, h⟩
  · rw [h]
  · rw [isBlank_of_visible (by omega) (by omega), isBlank_of_visible (by omega) (by omega)]

theorem eq_dot_of_toLower {c : Char} (h : c.toLower = '.') : c = '.' := by
  rcases toLower_cases c with hSame | ⟨hLow, -, hNat⟩
  · rw [← hSame, h]
  · rw [h] at hNat
    change 0x2E = _ at hNat
    omega

theorem trim_map_toLower (text : List Char) :
    trim (text.map Char.toLower) = (trim text).map Char.toLower := by
  have hBlank : isBlank ∘ Char.toLower = isBlank := funext isBlank_toLower
  simp only [trim, trimStart, trimEnd, List.dropWhile_map, hBlank, ← List.map_reverse]

theorem trim_append_blanks {lead core tail : List Char} (hLead : ∀ c ∈ lead, isBlank c = true)
    (hTail : ∀ c ∈ tail, isBlank c = true) (hFilled : core ≠ [])
    (hFirst : ∀ c, core.head? = some c → isBlank c = false)
    (hLast : ∀ c, core.getLast? = some c → isBlank c = false) :
    trim (lead ++ (core ++ tail)) = core := by
  have hStart : trimStart (lead ++ (core ++ tail)) = core ++ tail := by
    rw [trimStart, List.dropWhile_append_of_pos hLead]
    rwa [← trimStart, trimStart_eq_self_iff, List.head?_append_of_ne_nil core hFilled]
  have hEnd : trimEnd (core ++ tail) = core := by
    rw [trimEnd, List.reverse_append, List.dropWhile_append_of_pos (by simpa using hTail),
      List.reverse_eq_iff]
    rwa [← trimStart, trimStart_eq_self_iff, List.head?_reverse]
  rw [trim, hStart, hEnd]

theorem mem_of_mem_trim {text : List Char} {c : Char} (h : c ∈ trim text) : c ∈ text :=
  (List.dropWhile_suffix isBlank).mem
    ((List.rdropWhile_prefix isBlank (trimStart text)).mem h)

theorem exists_trim (text : List Char) :
    ∃ lead tail, text = lead ++ (trim text ++ tail) ∧ (∀ c ∈ lead, isBlank c = true) ∧
      ∀ c ∈ tail, isBlank c = true := by
  refine ⟨text.takeWhile isBlank, (trimStart text).rtakeWhile isBlank, ?_,
    fun c hc => List.mem_takeWhile_imp hc, fun c hc => List.mem_rtakeWhile_imp hc⟩
  have hEnd : trim text ++ (trimStart text).rtakeWhile isBlank = trimStart text :=
    List.rdropWhile_append_rtakeWhile
  rw [hEnd, trimStart, List.takeWhile_append_dropWhile]

end Text

namespace Settings

open Text

namespace Environment

/-! ## Names of variables -/

/-- Whether a name is for a field: the common start and the key of the field, in letters of any
case, with blanks around each. -/
def IsFor (field : Field) (name : String) : Prop :=
  ∃ lead head gap key tail : List Char, name.toList = lead ++ (head ++ (gap ++ (key ++ tail))) ∧
    (∀ c ∈ lead ++ gap ++ tail, isBlank c = true) ∧
    head.map Char.toLower = start.map Char.toLower ∧
    key.map Char.toLower = field.key.toList

variable {field : Field} {name text : String}

theorem keyOf?_eq_some {parts : List (List Char)} :
    keyOf? name = some parts ↔
      ∃ rest, (trim name.toList).map Char.toLower = start.map Char.toLower ++ rest ∧
        [] ∉ parts ∧ parts = (trim rest).splitOn '.' := by
  have hLength : (start.map Char.toLower).length = start.length := List.length_map _
  unfold keyOf?
  dsimp only
  constructor
  · intro h
    split at h
    · rename_i hStart
      obtain ⟨rest, hSmall⟩ := hStart
      rw [← hSmall, List.drop_left' hLength] at h
      split at h
      · cases h
      · rename_i hFilled
        obtain rfl := Option.some.inj h
        exact ⟨rest, hSmall.symm, by simpa using hFilled, rfl⟩
    · cases h
  · rintro ⟨rest, hSmall, hFilled, rfl⟩
    rw [hSmall, if_pos (List.prefix_append _ _), List.drop_left' hLength,
      if_neg (by simpa using hFilled)]

theorem visible_of_all {cs : List Char} (h : cs.all (!isBlank ·) = true) :
    ∀ c ∈ cs, isBlank c = false := by
  simpa using h

theorem visible_start : ∀ c ∈ start.map Char.toLower, isBlank c = false :=
  visible_of_all (by decide)

theorem visible_key (field : Field) : ∀ c ∈ field.key.toList, isBlank c = false :=
  visible_of_all (by cases field <;> decide)

theorem dot_not_mem_key (field : Field) : '.' ∉ field.key.toList := by
  cases field <;> decide

theorem visible_of_map {small cs : List Char} (hSmall : ∀ c ∈ small, isBlank c = false)
    (h : cs.map Char.toLower = small) : ∀ c ∈ cs, isBlank c = false := by
  intro c hc
  rw [← isBlank_toLower]
  exact hSmall _ (h ▸ List.mem_map_of_mem hc)

theorem filled_of_map {small cs : List Char} (hSmall : small ≠ [])
    (h : cs.map Char.toLower = small) : cs ≠ [] := by
  rintro rfl
  exact hSmall h.symm

theorem key_ne_nil (field : Field) : field.key.toList ≠ [] := by
  cases field <;> decide

/-- A name for a field, without the blanks around it and in small letters. -/
theorem exists_gap_of_isFor (h : IsFor field name) :
    ∃ gap, (∀ c ∈ gap, isBlank c = true) ∧
      (trim name.toList).map Char.toLower =
        start.map Char.toLower ++ (gap ++ field.key.toList) := by
  obtain ⟨lead, head, gap, key, tail, hName, hBlanks, hHead, hKey⟩ := h
  simp only [List.mem_append, or_imp, forall_and] at hBlanks
  obtain ⟨⟨hLead, hGap⟩, hTail⟩ := hBlanks
  have hHeadFilled : head ≠ [] := filled_of_map (by decide) hHead
  have hKeyFilled : key ≠ [] := filled_of_map (key_ne_nil field) hKey
  have hTrim : trim name.toList = head ++ (gap ++ key) := by
    rw [hName, show head ++ (gap ++ (key ++ tail)) = head ++ (gap ++ key) ++ tail by simp]
    refine trim_append_blanks hLead hTail (by simp [hHeadFilled]) (fun c hc => ?_) fun c hc => ?_
    · rw [List.head?_append_of_ne_nil head hHeadFilled] at hc
      exact visible_of_map visible_start hHead c (List.mem_of_head? hc)
    · rw [← List.append_assoc, List.getLast?_append_of_ne_nil _ hKeyFilled] at hc
      exact visible_of_map (visible_key field) hKey c (List.mem_of_getLast? hc)
  refine ⟨gap.map Char.toLower, ?_, by rw [hTrim, List.map_append, List.map_append, hHead, hKey]⟩
  rw [List.forall_mem_map]
  exact fun c hc => (isBlank_toLower c).trans (hGap c hc)

theorem trim_gap_key {gap : List Char} (hGap : ∀ c ∈ gap, isBlank c = true) (field : Field) :
    trim (gap ++ field.key.toList) = field.key.toList := by
  have hTrim : trim (gap ++ (field.key.toList ++ [])) = field.key.toList :=
    trim_append_blanks hGap (List.forall_mem_nil _) (key_ne_nil field)
      (fun c hc => visible_key field c (List.mem_of_head? hc))
      fun c hc => visible_key field c (List.mem_of_getLast? hc)
  rwa [List.append_nil] at hTrim

theorem keyOf?_of_isFor (h : IsFor field name) : keyOf? name = some [field.key.toList] := by
  obtain ⟨gap, hGap, hSmall⟩ := exists_gap_of_isFor h
  have hFilled : [] ∉ [field.key.toList] := fun hNil =>
    key_ne_nil field (List.mem_singleton.mp hNil).symm
  refine keyOf?_eq_some.mpr ⟨_, hSmall, hFilled, ?_⟩
  rw [trim_gap_key hGap, List.splitOn_eq_singleton (dot_not_mem_key field)]

theorem isFor_of_keyOf? (h : keyOf? name = some [field.key.toList]) : IsFor field name := by
  obtain ⟨rest, hSmall, -, hParts⟩ := keyOf?_eq_some.mp h
  obtain ⟨head, back, hName, hHead, rfl⟩ := List.map_eq_append_iff.mp hSmall
  obtain ⟨lead, tail, hTrimmed, hLead, hTail⟩ := exists_trim name.toList
  obtain ⟨gap, tail', hBack, hGap, hTail'⟩ := exists_trim back
  refine ⟨lead, head, gap, trim back, tail' ++ tail, ?_, ?_, hHead, ?_⟩
  · rw [hTrimmed, hName]
    nth_rewrite 1 [hBack]
    simp only [List.append_assoc]
  · simp only [List.mem_append, or_imp, forall_and]
    exact ⟨⟨hLead, hGap⟩, hTail', hTail⟩
  · have hJoined := congrArg (['.'].intercalate ·) hParts
    rw [List.intercalate_splitOn, trim_map_toLower] at hJoined
    simpa using hJoined.symm

/-- The key behind the common start of a name without dots has one part. -/
theorem eq_singleton_of_keyOf? {parts : List (List Char)} (hDots : '.' ∉ name.toList)
    (h : keyOf? name = some parts) : ∃ key, parts = [key] := by
  obtain ⟨rest, hSmall, -, rfl⟩ := keyOf?_eq_some.mp h
  refine ⟨trim rest, List.splitOn_eq_singleton fun hMem => hDots ?_⟩
  have hRest : '.' ∈ (trim name.toList).map Char.toLower :=
    hSmall ▸ List.mem_append_right _ (mem_of_mem_trim hMem)
  obtain ⟨c, hc, hDot⟩ := List.mem_map.mp hRest
  rw [eq_dot_of_toLower hDot] at hc
  exact mem_of_mem_trim hc

theorem valueFor?_of_isFor (h : IsFor field name) (text : String) :
    valueFor? field (name, text) = some (valueOf text) := by
  simp [valueFor?, keyOf?_of_isFor h]

theorem valueFor?_of_not_isFor (hDots : '.' ∉ name.toList) (h : ¬ IsFor field name)
    (text : String) : valueFor? field (name, text) = none := by
  cases hKey : keyOf? name with
  | none => simp [valueFor?, hKey]
  | some parts =>
    obtain ⟨key, rfl⟩ := eq_singleton_of_keyOf? hDots hKey
    have hOther : key ≠ field.key.toList := by
      rintro rfl
      exact h (isFor_of_keyOf? hKey)
    simp [valueFor?, hKey, hOther]

/-! ## Fields in the environment -/

/-- Whether no variable has a dot in its name. -/
def Undotted (env : Environment) : Prop :=
  ∀ e ∈ env.entries, '.' ∉ e.1.toList

/-- Whether an environment sets a field to a text: the last variable for the field has that text. -/
def Sets (env : Environment) (field : Field) (text : String) : Prop :=
  ∃ before name after, env.entries = before ++ (name, text) :: after ∧ IsFor field name ∧
    ∀ e ∈ after, ¬ IsFor field e.1

/-- Of variables for a field, one is the last. -/
theorem exists_sets {entries : List (String × String)} (h : ∃ e ∈ entries, IsFor field e.1) :
    ∃ name text, (name, text) ∈ entries ∧ IsFor field name ∧ Sets ⟨entries⟩ field text := by
  induction entries with
  | nil => simp at h
  | cons e rest ih =>
    by_cases hRest : ∃ e ∈ rest, IsFor field e.1
    · obtain ⟨name, text, hMem, hFor, before, last, after, hEntries, hLast⟩ := ih hRest
      refine ⟨name, text, List.mem_cons_of_mem e hMem, hFor, e :: before, last, after, ?_, hLast⟩
      rw [List.cons_append, ← hEntries]
    · obtain ⟨e', hMem, hFor⟩ := h
      rcases List.mem_cons.mp hMem with rfl | hMem
      · exact ⟨e'.1, e'.2, List.mem_cons_self, hFor, [], e'.1, rest, rfl, hFor,
          fun e he hE => hRest ⟨e, he, hE⟩⟩
      · exact absurd ⟨e', hMem, hFor⟩ hRest

/-- If only one variable is for a field, it sets that field. -/
theorem sets_of_only {env : Environment} (hMem : (name, text) ∈ env.entries)
    (hFor : IsFor field name) (hOnly : ∀ e ∈ env.entries, IsFor field e.1 → e = (name, text)) :
    Sets env field text := by
  obtain ⟨name', text', hMem', hFor', hSets⟩ := exists_sets ⟨_, hMem, hFor⟩
  obtain ⟨-, rfl⟩ := Prod.ext_iff.mp (hOnly _ hMem' hFor')
  exact hSets

section

variable {env : Environment} (hDots : env.Undotted)
include hDots

theorem value?_of_sets (h : env.Sets field text) : env.value? field = some (valueOf text) := by
  obtain ⟨before, name, after, hEntries, hFor, hAfter⟩ := h
  have hNone : after.filterMap (valueFor? field) = [] := by
    refine List.filterMap_eq_nil_iff.mpr fun e he =>
      valueFor?_of_not_isFor (hDots e ?_) (hAfter e he) e.2
    rw [hEntries]
    exact List.mem_append_right _ (List.mem_cons_of_mem _ he)
  rw [value?, hEntries, List.filterMap_append,
    List.filterMap_cons_some (valueFor?_of_isFor hFor text), hNone, List.getLast?_concat]

theorem value?_of_not_sets (h : ∀ text, ¬ env.Sets field text) : env.value? field = none := by
  have hNone : env.entries.filterMap (valueFor? field) = [] := by
    refine List.filterMap_eq_nil_iff.mpr fun e he =>
      valueFor?_of_not_isFor (hDots e he) (fun hFor => ?_) e.2
    obtain ⟨_, text, -, -, hSets⟩ := exists_sets ⟨e, he, hFor⟩
    exact h text hSets
  rw [value?, hNone, List.getLast?_nil]

end

end Environment

/-! ## Choices -/

/-- What the layers choose for a field: what the environment sets it to, else what the file holds
for it, else nothing, which stands for the default. -/
inductive Chosen (file : FileValues) (env : Environment) (field : Field) :
    Option (Value × Layer) → Prop
  | environment {text : String} (hSets : env.Sets field text) :
    Chosen file env field (some (Environment.valueOf text, .environment))
  | file {v : Value} (hUnset : ∀ text, ¬ env.Sets field text) (hFile : file.value? field = some v) :
    Chosen file env field (some (v, .file))
  | default (hUnset : ∀ text, ¬ env.Sets field text) (hFile : file.value? field = none) :
    Chosen file env field none

section

variable {file : FileValues} {env : Environment} (hDots : env.Undotted)
include hDots

theorem chosen_iff {field : Field} {c : Option (Value × Layer)} :
    Chosen file env field c ↔ chosen? file env field = c := by
  constructor
  · rintro (⟨hSets⟩ | ⟨hUnset, hFile⟩ | ⟨hUnset, hFile⟩)
    · exact chosen?_of_environment (Environment.value?_of_sets hDots hSets)
    · rw [chosen?, Environment.value?_of_not_sets hDots hUnset]
      simp only [hFile, Option.map_some]
    · rw [chosen?, Environment.value?_of_not_sets hDots hUnset]
      simp only [hFile, Option.map_none]
  · rintro rfl
    by_cases hSets : ∃ text, env.Sets field text
    · obtain ⟨text, hSets⟩ := hSets
      rw [chosen?_of_environment (Environment.value?_of_sets hDots hSets)]
      exact .environment hSets
    · have hUnset := not_exists.mp hSets
      rw [chosen?, Environment.value?_of_not_sets hDots hUnset]
      cases hFile : file.value? field with
      | none => exact .default hUnset hFile
      | some v => exact .file hUnset hFile

end

/-! ## From choices to settings -/

/-- The text that settings hold for a field. -/
def text (s : Settings) : Field → Option String
  | .platformRoot => s.platformRoot
  | .propertiesFile => some s.propertiesFile

section

variable {file : FileValues} {env : Environment} {field : Field}

theorem text?_of_none (h : chosen? file env field = none) : text? file env field = .ok none := by
  rw [text?, h]

theorem text?_of_text {content : String} {layer : Layer}
    (h : chosen? file env field = some (.text content, layer)) :
    text? file env field = .ok (some content) := by
  rw [text?, h]

theorem text?_of_other {v : Value} {layer : Layer} (h : chosen? file env field = some (v, layer))
    (hShape : ∀ content, v ≠ .text content) :
    text? file env field = .error (.wrongType field v layer) := by
  cases v with
  | text content => exact absurd rfl (hShape content)
  | _ => rw [text?, h]

theorem text?_isOk_iff :
    (∃ taken, text? file env field = .ok taken) ↔
      ∀ v layer, chosen? file env field = some (v, layer) → ∃ content, v = .text content := by
  constructor
  · rintro ⟨taken, hTaken⟩ v layer hChosen
    by_contra hShape
    rw [text?_of_other hChosen (not_exists.mp hShape)] at hTaken
    cases hTaken
  · intro h
    cases hChosen : chosen? file env field with
    | none => exact ⟨none, text?_of_none hChosen⟩
    | some choice =>
      obtain ⟨v, layer⟩ := choice
      obtain ⟨content, rfl⟩ := h v layer hChosen
      exact ⟨some content, text?_of_text hChosen⟩

theorem gather_eq_ok {s : Settings} :
    gather file env = .ok s ↔
      ∃ root name, text? file env .platformRoot = .ok root ∧
        text? file env .propertiesFile = .ok name ∧
        s = ⟨name.getD defaults.propertiesFile, root.or defaults.platformRoot⟩ := by
  unfold gather
  cases text? file env .platformRoot with
  | error fault => simp [bind, Except.bind]
  | ok root =>
    cases text? file env .propertiesFile with
    | error fault => simp [bind, Except.bind]
    | ok name => simp [bind, Except.bind, pure, Except.pure, eq_comm]

/-- Gathering succeeds exactly when each field yields a text or nothing. -/
theorem gather_isOk_iff :
    (∃ s, gather file env = .ok s) ↔ ∀ field, ∃ taken, text? file env field = .ok taken := by
  constructor
  · rintro ⟨s, h⟩ field
    obtain ⟨root, name, hRoot, hName, -⟩ := gather_eq_ok.mp h
    cases field with
    | platformRoot => exact ⟨root, hRoot⟩
    | propertiesFile => exact ⟨name, hName⟩
  · intro h
    obtain ⟨root, hRoot⟩ := h .platformRoot
    obtain ⟨name, hName⟩ := h .propertiesFile
    exact ⟨_, gather_eq_ok.mpr ⟨root, name, hRoot, hName, rfl⟩⟩

/-- What settings hold for a field is what was taken for it, or the default. -/
theorem text_of_gather {s : Settings} (h : gather file env = .ok s) {taken : Option String}
    (hTaken : text? file env field = .ok taken) :
    s.text field = taken.or (defaults.text field) := by
  obtain ⟨root, name, hRoot, hName, rfl⟩ := gather_eq_ok.mp h
  cases field with
  | platformRoot =>
    rw [hRoot] at hTaken
    obtain rfl := Except.ok.inj hTaken
    rfl
  | propertiesFile =>
    rw [hName] at hTaken
    obtain rfl := Except.ok.inj hTaken
    cases name <;> rfl

/-- The fault of the field whose key comes first is the one that is reported. -/
theorem gather_of_error {fault : Fault} (h : text? file env field = .error fault)
    (hBefore : ∀ other : Field, other.key < field.key →
      ∃ taken, text? file env other = .ok taken) : gather file env = .error fault := by
  cases field with
  | platformRoot => rw [gather, h]; rfl
  | propertiesFile =>
    obtain ⟨root, hRoot⟩ := hBefore .platformRoot (by decide)
    rw [gather, hRoot, h]
    rfl

/-- Nothing but the choices for the fields decides what is gathered. -/
theorem gather_congr {file' : FileValues} {env' : Environment}
    (h : ∀ field, chosen? file env field = chosen? file' env' field) :
    gather file env = gather file' env' := by
  simp only [gather, text?, h]

end

/-! ## Loading -/

/-- Whether an outcome is what follows from the choices for the fields. -/
structure FollowsChoices (file : FileValues) (env : Environment) (outcome : Except Fault Settings) :
    Prop where
  /-- There is one choice for each field. -/
  choice : ∀ field, ∃! c, Chosen file env field c
  /-- There are settings exactly when all chosen values are texts. -/
  succeeds : (∃ s, outcome = .ok s) ↔
    ∀ field v layer, Chosen file env field (some (v, layer)) → ∃ content, v = .text content
  /-- The settings hold the chosen texts. -/
  taken : ∀ s, outcome = .ok s → ∀ field content layer,
    Chosen file env field (some (.text content, layer)) → s.text field = some content
  /-- Where nothing is chosen, the settings hold the default. -/
  untouched : ∀ s, outcome = .ok s → ∀ field, Chosen file env field none →
    s.text field = defaults.text field
  /-- The fault is that of the first field, in the order of the keys, whose chosen value is no text.
  -/
  fault : ∀ field v layer, Chosen file env field (some (v, layer)) →
    (∀ content, v ≠ .text content) →
    (∀ other : Field, other.key < field.key → ∀ v' layer',
      Chosen file env other (some (v', layer')) → ∃ content, v' = .text content) →
    outcome = .error (.wrongType field v layer)

theorem followsChoices {env : Environment} (hDots : env.Undotted) (file : FileValues) :
    FollowsChoices file env (gather file env) where
  choice field := ⟨chosen? file env field, (chosen_iff hDots).mpr rfl, fun _ h =>
    ((chosen_iff hDots).mp h).symm⟩
  succeeds := by
    simp only [gather_isOk_iff, text?_isOk_iff, chosen_iff hDots]
  taken s hOk field content layer hChosen :=
    text_of_gather hOk (text?_of_text ((chosen_iff hDots).mp hChosen))
  untouched s hOk field hChosen :=
    text_of_gather hOk (text?_of_none ((chosen_iff hDots).mp hChosen))
  fault field v layer hChosen hShape hBefore := by
    refine gather_of_error (text?_of_other ((chosen_iff hDots).mp hChosen) hShape) ?_
    simpa only [text?_isOk_iff, chosen_iff hDots] using hBefore

theorem load_of_holds {file : Option String} {ls : List (List String × File.Statement)}
    {values : FileValues} (h : File.Holds file ls values) (env : Environment) :
    load file env = gather values env := by
  cases h with
  | absent => rfl
  | parsed hSays hParse => rw [load, hParse]

/-- Layers that agree on what the environment sets, and below that on what the file holds, choose
the same. -/
theorem chosen?_congr {file file' : FileValues} {env env' : Environment} {field : Field}
    (hDots : env.Undotted) (hDots' : env'.Undotted)
    (hSets : ∀ text, env'.Sets field text ↔ env.Sets field text)
    (hFile : (∀ text, ¬ env.Sets field text) → file'.value? field = file.value? field) :
    chosen? file' env' field = chosen? file env field := by
  have hUnset (h : ∀ text, ¬ env.Sets field text) (text : String) : ¬ env'.Sets field text :=
    fun hText => h text ((hSets text).mp hText)
  generalize hChoice : chosen? file env field = c
  rw [← chosen_iff hDots']
  cases (chosen_iff hDots).mpr hChoice with
  | environment hText => exact .environment ((hSets _).mpr hText)
  | file hNone hValue => exact .file (hUnset hNone) ((hFile hNone).trans hValue)
  | default hNone hValue => exact .default (hUnset hNone) ((hFile hNone).trans hValue)

/-- Settings are gathered field by field, each from the highest layer that holds it. A file that
does not parse makes gathering fail. Of every other file, the environment and what the file says
about the fields that the environment does not set decide the outcome alone: neither values in a
layer below the chosen one matter, nor keys and variables that belong to no field. -/
theorem layers_override {env : Environment} (hDots : env.Undotted) (file : Option String) :
    ((∃ text, file = some text ∧ FileValues.parse? text = none) ∧
      load file env = .error .unparsable) ∨
    ∃ ls values, File.Holds file ls values ∧ FollowsChoices values env (load file env) ∧
      (∀ field v, ([], .value [field.key] v) ∈ ls → values.value? field = some v) ∧
      (∀ field, (∀ l ∈ ls, File.about field.key l = false) → values.value? field = none) ∧
      ∀ file' env' ls' values', env'.Undotted → File.Holds file' ls' values' →
        (∀ field text, env'.Sets field text ↔ env.Sets field text) →
        (∀ field, (∀ text, ¬ env.Sets field text) →
          ls'.filter (File.about field.key) = ls.filter (File.about field.key)) →
        load file' env' = load file env := by
  rcases File.unparsable_or_holds file with ⟨text, rfl, hParse⟩ | ⟨ls, values, hHolds⟩
  · exact .inl ⟨⟨text, rfl, hParse⟩, by rw [load, hParse]⟩
  · refine .inr ⟨ls, values, hHolds, ?_, fun _ _ => hHolds.value?_of_mem,
      fun _ => hHolds.value?_of_silent, ?_⟩
    · rw [load_of_holds hHolds]
      exact followsChoices hDots values
    · intro file' env' ls' values' hDots' hHolds' hSets hSame
      rw [load_of_holds hHolds, load_of_holds hHolds']
      exact gather_congr fun field => chosen?_congr hDots hDots' (hSets field) fun hUnset =>
        hHolds.value?_congr hHolds' (hSame field hUnset)

/-- A file with a number for the platform root, and a key of no meaning. -/
def shadowedFile : String :=
  "platform_root = 5\n[other]\nproperties_file = 'x'"

/-- An environment that sets the platform root, in letters of both cases. -/
def shadowing : Environment :=
  ⟨[("HOME", "/"), (" Ancestry_Config_ PLATFORM_ROOT", "'a'")]⟩

theorem layers_override_shadowed :
    shadowing.Undotted ∧ shadowing.Sets .platformRoot "'a'" ∧
      FileValues.parse? shadowedFile = some ⟨some (.signed 5), none⟩ ∧
      ∃ s, load (some shadowedFile) shadowing = .ok s ∧ s.text .platformRoot = some "a" := by
  have hDots : shadowing.Undotted := by
    unfold Environment.Undotted
    decide
  have hFor : Environment.IsFor .platformRoot " Ancestry_Config_ PLATFORM_ROOT" :=
    ⟨[' '], "Ancestry_Config_".toList, [' '], "PLATFORM_ROOT".toList, [], by decide,
      List.all_eq_true.mp (by decide), by decide, by decide⟩
  have hSets : shadowing.Sets .platformRoot "'a'" := by
    refine Environment.sets_of_only (List.mem_cons_of_mem _ List.mem_cons_self) hFor ?_
    refine List.forall_mem_cons.mpr ⟨fun hHome => ?_, List.forall_mem_singleton.mpr fun _ => rfl⟩
    exact absurd (Environment.keyOf?_of_isFor hHome) (by decide)
  have hValue : Environment.valueOf "'a'" = .text "a" := by decide +kernel
  have hParse : FileValues.parse? shadowedFile = some ⟨some (.signed 5), none⟩ := by
    decide +kernel
  have hLoad : load (some shadowedFile) shadowing = .ok ⟨"config.properties", some "a"⟩ := by
    decide +kernel
  refine ⟨hDots, hSets, hParse, _, hLoad, ?_⟩
  rcases layers_override hDots (some shadowedFile) with ⟨-, hFails⟩ | ⟨_, values, -, hFollows, -⟩
  · rw [hLoad] at hFails
    cases hFails
  · have hChosen : Chosen values shadowing .platformRoot (some (.text "a", .environment)) :=
      hValue ▸ .environment hSets
    exact hFollows.taken _ hLoad .platformRoot "a" .environment hChosen

end Settings

end Heritage
