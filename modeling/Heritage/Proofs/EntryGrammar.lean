import Heritage.Proofs.PropertyText
import Mathlib.Data.List.TakeWhile

/-!
# The grammar of entries

A logical line is made of a key, a gap and a value. The key is the longest beginning of the line
with no separator and no blank but behind a backslash; the gap is the longest beginning of what is
left that consists of blanks with at most one separator among them; the value is the rest. In keys
and values a backslash and the character behind it spell one character.

* `continues_of_mem_logicalLines`: a logical line does not end in an odd number of backslashes;
* `Paired`: texts in which every backslash stands before another character, which is what such a
  line is (`paired_iff`);
* `EntryParts`: a line cut into its three parts, which can be done in one way only
  (`EntryParts.unique`);
* `entries_follow_grammar`: an entry is read from these parts.

The parts are found in every line whose backslashes are paired. A backslash at the very end of a
line would be a key of its own that spells nothing.
-/

namespace Heritage.Properties

open Text

/-! ## Backslashes at the end of a line -/

theorem continues_concat_backslash (front : List Char) :
    continues (front ++ ['\\']) = !continues front := by
  have hOneMore : ((front ++ ['\\']).reverse.takeWhile (· = '\\')).length =
      (front.reverse.takeWhile (· = '\\')).length + 1 := by simp
  rw [Bool.eq_iff_iff, Bool.not_eq_true']
  simp only [continues, hOneMore, decide_eq_true_eq, decide_eq_false_iff_not]
  omega

/-- What stands before a text has no part in whether the text is continued, if it ends in an even
number of backslashes. -/
theorem continues_append {front : List Char} (h : continues front = false) (back : List Char) :
    continues (front ++ back) = continues back := by
  induction back using List.reverseRecOn with
  | nil => rw [List.append_nil, h, continues]; rfl
  | append_singleton back c ih =>
    rw [← List.append_assoc]
    by_cases hSlash : c = '\\'
    · rw [hSlash, continues_concat_backslash, continues_concat_backslash, ih]
    · rw [continues_concat_of_ne hSlash, continues_concat_of_ne hSlash]

theorem continues_cons_of_ne {c : Char} (h : c ≠ '\\') (rest : List Char) :
    continues (c :: rest) = continues rest :=
  @continues_append [c] (continues_concat_of_ne h []) rest

theorem continues_taken (c : Char) (rest : List Char) :
    continues ('\\' :: c :: rest) = continues rest := by
  refine @continues_append ['\\', c] ?_ rest
  by_cases hSlash : c = '\\'
  · subst hSlash
    rfl
  · exact continues_concat_of_ne hSlash ['\\']

/-- A line that is continued ends in a backslash, and no longer is continued without it. -/
theorem exists_concat_of_continues {line : List Char} (h : continues line = true) :
    ∃ front, line = front ++ ['\\'] ∧ continues front = false := by
  rcases List.eq_nil_or_concat line with rfl | ⟨front, c, rfl⟩
  · cases h
  · rw [List.concat_eq_append] at h ⊢
    by_cases hSlash : c = '\\'
    · subst hSlash
      rw [continues_concat_backslash, Bool.not_eq_true'] at h
      exact ⟨front, rfl, h⟩
    · rw [continues_concat_of_ne hSlash] at h
      cases h

theorem continues_dropLast {line : List Char} (h : continues line = true) :
    continues line.dropLast = false := by
  obtain ⟨front, rfl, hFront⟩ := exists_concat_of_continues h
  rwa [List.dropLast_concat]

theorem continues_of_mem_gather {pending : Option (List Char)} {physical : List (List Char)}
    (hPending : ∀ joined ∈ pending, continues joined = false) {line : List Char}
    (h : line ∈ gather pending physical) : continues line = false := by
  induction physical generalizing pending with
  | nil => exact hPending line (Option.mem_toList.mp h)
  | cons first rest ih =>
    unfold gather at h
    dsimp only at h
    split at h
    · exact ih (by simp) h
    · split at h
      · rename_i hContinues
        refine ih (fun joined hJoined => ?_) h
        obtain rfl := Option.some.inj hJoined
        exact continues_dropLast hContinues
      · rename_i hEnds
        rcases List.mem_cons.mp h with rfl | h
        · exact Bool.eq_false_iff.mpr hEnds
        · exact ih (by simp) h

theorem continues_of_mem_logicalLines {text line : List Char} (h : line ∈ logicalLines text) :
    continues line = false :=
  continues_of_mem_gather (by simp) h

/-! ## Backslashes and the characters behind them -/

/-- Every backslash stands before another character, which it takes with it, and all characters that
no backslash takes have a property. -/
inductive Paired (plain : Char → Prop) : List Char → Prop
  | nil : Paired plain []
  | plain {c : Char} {rest : List Char} (hSlash : c ≠ '\\') (hPlain : plain c)
      (hRest : Paired plain rest) : Paired plain (c :: rest)
  | taken (c : Char) {rest : List Char} (hRest : Paired plain rest) :
      Paired plain ('\\' :: c :: rest)

/-- Every backslash stands before another character. -/
abbrev Whole : List Char → Prop :=
  Paired fun _ => True

theorem whole_iff {text : List Char} : Whole text ↔ continues text = false := by
  constructor
  · intro h
    induction h with
    | nil => rfl
    | plain hSlash _ _ ih => rwa [continues_cons_of_ne hSlash]
    | taken c _ ih => rwa [continues_taken]
  · intro h
    induction text using unescaped.induct with
    | case1 => exact .nil
    | case2 => cases h
    | case3 c rest ih =>
      rw [continues_taken] at h
      exact .taken c (ih h)
    | case4 c rest hLone hPair ih =>
      have hSlash : c ≠ '\\' := by
        rintro rfl
        cases rest with
        | nil => exact hLone rfl rfl
        | cons d rest => exact hPair d rest rfl rfl
      rw [continues_cons_of_ne hSlash] at h
      exact .plain hSlash trivial (ih h)

theorem Paired.whole {plain : Char → Prop} {text : List Char} (h : Paired plain text) :
    Whole text := by
  induction h with
  | nil => exact .nil
  | plain hSlash _ _ ih => exact .plain hSlash trivial ih
  | taken c _ ih => exact .taken c ih

theorem whole_append_iff {front : List Char} (h : Whole front) {back : List Char} :
    Whole (front ++ back) ↔ Whole back := by
  rw [whole_iff, whole_iff, continues_append (whole_iff.mp h)]

theorem whole_of_not_mem {text : List Char} (h : '\\' ∉ text) : Whole text := by
  induction text with
  | nil => exact .nil
  | cons c rest ih =>
    rw [List.mem_cons, not_or] at h
    exact .plain (Ne.symm h.1) trivial (ih h.2)

/-- The letters that spell control characters behind a backslash. -/
def letters : List (Char × Char) := [('t', '\t'), ('n', '\n'), ('r', '\r'), ('f', '\x0c')]

/-- The text that another one spells. A character behind a backslash is taken as it is, but for the
letters of control characters, and the backslash falls away. -/
inductive Spells : List Char → List Char → Prop
  | nil : Spells [] []
  | plain {c : Char} {rest text : List Char} (hSlash : c ≠ '\\') (hRest : Spells rest text) :
      Spells (c :: rest) (c :: text)
  | letter {c d : Char} {rest text : List Char} (hLetter : (c, d) ∈ letters)
      (hRest : Spells rest text) : Spells ('\\' :: c :: rest) (d :: text)
  | other {c : Char} {rest text : List Char} (hOther : c ∉ letters.map Prod.fst)
      (hRest : Spells rest text) : Spells ('\\' :: c :: rest) (c :: text)

theorem unescape_of_mem {c d : Char} (h : (c, d) ∈ letters) : unescape c = d := by
  simp only [letters, List.mem_cons, List.not_mem_nil, or_false, Prod.mk.injEq] at h
  rcases h with ⟨rfl, rfl⟩ | ⟨rfl, rfl⟩ | ⟨rfl, rfl⟩ | ⟨rfl, rfl⟩ <;> rfl

theorem Whole.spells {text : List Char} (h : Whole text) : Spells text (unescaped text) := by
  induction h with
  | nil => exact .nil
  | plain hSlash _ _ ih =>
    rw [unescaped_cons_of_ne hSlash]
    exact .plain hSlash ih
  | taken c _ ih =>
    rw [unescaped]
    by_cases hLetter : c ∈ letters.map Prod.fst
    · obtain ⟨⟨_, d⟩, hMem, rfl⟩ := List.mem_map.mp hLetter
      rw [unescape_of_mem hMem]
      exact .letter hMem ih
    · rw [unescape_of_not_mem hLetter]
      exact .other hLetter ih

theorem unescaped_eq_nil_iff {text : List Char} (h : Whole text) :
    unescaped text = [] ↔ text = [] := by
  cases h with
  | nil => simp [unescaped]
  | plain hSlash _ _ => simp [unescaped_cons_of_ne hSlash]
  | taken c _ => simp [unescaped]

/-! ## Keys -/

/-- The longest beginning of a text with a property. -/
structure Longest (P : List Char → Prop) (text front : List Char) : Prop where
  begins : front <+: text
  holds : P front
  le : ∀ other, other <+: text → P other → other.length ≤ front.length

theorem Longest.unique {P : List Char → Prop} {text front front' : List Char}
    (h : Longest P text front) (h' : Longest P text front') : front = front' := by
  have hLe := h'.le front h.begins h.holds
  have hGe := h.le front' h'.begins h'.holds
  exact (List.prefix_of_prefix_length_le h.begins h'.begins hLe).eq_of_length_le hGe

/-- A paired text is as long as can be where the next character is neither a backslash nor one that
may stand in it. -/
theorem Paired.longest {plain : Char → Prop} {front : List Char} (h : Paired plain front)
    {back : List Char} (hBack : ∀ c, back.head? = some c → c ≠ '\\' ∧ ¬ plain c) :
    Longest (Paired plain) (front ++ back) front := by
  refine ⟨List.prefix_append front back, h, fun other hOther hPaired => ?_⟩
  induction h generalizing other with
  | nil =>
    cases hPaired with
    | nil => exact Nat.le_refl 0
    | plain _ hPlain _ =>
      obtain ⟨later, rfl⟩ := hOther
      exact absurd hPlain (hBack _ rfl).2
    | taken c _ =>
      obtain ⟨later, rfl⟩ := hOther
      exact absurd rfl (hBack '\\' rfl).1
  | plain hSlash _ _ ih =>
    cases hPaired with
    | nil => exact Nat.zero_le _
    | plain _ _ hRest =>
      exact Nat.succ_le_succ (ih _ (List.cons_prefix_cons.mp hOther).2 hRest)
    | taken c _ => exact absurd (List.cons_prefix_cons.mp hOther).1.symm hSlash
  | taken c _ ih =>
    cases hPaired with
    | nil => exact Nat.zero_le _
    | plain hSlash _ _ => exact absurd (List.cons_prefix_cons.mp hOther).1 hSlash
    | taken d hRest =>
      have hBehind := (List.cons_prefix_cons.mp hOther).2
      exact Nat.add_le_add_right (ih _ (List.cons_prefix_cons.mp hBehind).2 hRest) 2

/-- Neither a separator nor a blank. -/
def IsBare (c : Char) : Prop :=
  isSeparator c = false ∧ isBlank c = false

instance : DecidablePred IsBare :=
  fun c => inferInstanceAs (Decidable (isSeparator c = false ∧ isBlank c = false))

theorem isBlank_of_isSeparator {c : Char} (h : isSeparator c = true) : isBlank c = false := by
  simp only [isSeparator, Bool.or_eq_true, decide_eq_true_eq] at h
  rcases h with rfl | rfl <;> decide

theorem afterBlank_of_separator {c : Char} (h : isSeparator c = true) (rest : List Char) :
    afterBlank (c :: rest) = rest.dropWhile isBlank := by
  simp [afterBlank, isBlank_of_isSeparator h, h]

theorem afterBlank_of_blank {c : Char} (h : isBlank c = true) (rest : List Char) :
    afterBlank (c :: rest) = afterBlank rest := by
  simp [afterBlank, h]

theorem splitKey_of_not_bare {c : Char} (hSlash : c ≠ '\\') (h : ¬ IsBare c) (rest : List Char) :
    splitKey (c :: rest) = ([], afterBlank (c :: rest)) := by
  rw [splitKey_cons_of_ne hSlash]
  cases hSeparator : isSeparator c with
  | true => rw [if_pos rfl, afterBlank_of_separator hSeparator]
  | false =>
    have hBlank : isBlank c = true := Bool.of_not_eq_false fun hBlank => h ⟨hSeparator, hBlank⟩
    rw [if_neg Bool.false_ne_true, if_pos hBlank, afterBlank_of_blank hBlank]

/-- The scanner stops behind the longest key. -/
theorem exists_key {line : List Char} (h : Whole line) :
    ∃ key back, line = key ++ back ∧ Longest (Paired IsBare) line key ∧
      splitKey line = (unescaped key, afterBlank back) := by
  suffices hCut : ∃ key back, line = key ++ back ∧ Paired IsBare key ∧
      (∀ c, back.head? = some c → c ≠ '\\' ∧ ¬ IsBare c) ∧
      splitKey line = (unescaped key, afterBlank back) by
    obtain ⟨key, back, rfl, hKey, hBack, hSplit⟩ := hCut
    exact ⟨key, back, rfl, hKey.longest hBack, hSplit⟩
  induction h with
  | nil => exact ⟨[], [], rfl, .nil, nofun, rfl⟩
  | @plain c rest hSlash _ _ ih =>
    by_cases hBare : IsBare c
    · obtain ⟨key, back, rfl, hKey, hBack, hSplit⟩ := ih
      refine ⟨c :: key, back, rfl, .plain hSlash hBare hKey, hBack, ?_⟩
      rw [splitKey_cons_of_ne hSlash, if_neg (by simp [hBare.1]), if_neg (by simp [hBare.2]),
        hSplit, unescaped_cons_of_ne hSlash]
    · refine ⟨[], c :: rest, rfl, .nil, fun d hd => ?_, splitKey_of_not_bare hSlash hBare rest⟩
      obtain rfl := Option.some.inj hd
      exact ⟨hSlash, hBare⟩
  | taken c _ ih =>
    obtain ⟨key, back, rfl, hKey, hBack, hSplit⟩ := ih
    refine ⟨'\\' :: c :: key, back, rfl, .taken c hKey, hBack, ?_⟩
    rw [splitKey, hSplit, unescaped]

/-! ## Gaps -/

/-- Blanks with at most one separator among them. -/
inductive IsGap : List Char → Prop
  | blanks {text : List Char} (h : ∀ c ∈ text, isBlank c = true) : IsGap text
  | marked {before : List Char} {mark : Char} {after : List Char}
      (hBefore : ∀ c ∈ before, isBlank c = true) (hMark : isSeparator mark = true)
      (hAfter : ∀ c ∈ after, isBlank c = true) : IsGap (before ++ mark :: after)

/-- The blanks that a text begins with, a separator behind them, and the blanks behind that. -/
def leadingGap (text : List Char) : List Char :=
  text.takeWhile isBlank ++
    match text.dropWhile isBlank with
    | [] => []
    | c :: rest => if isSeparator c then c :: rest.takeWhile isBlank else []

theorem leadingGap_append_afterBlank (text : List Char) :
    leadingGap text ++ afterBlank text = text := by
  conv_rhs => rw [← List.takeWhile_append_dropWhile (p := isBlank) (l := text)]
  unfold leadingGap afterBlank
  rw [List.append_assoc]
  congr 1
  cases text.dropWhile isBlank with
  | nil => rfl
  | cons c rest =>
    dsimp only
    split
    · rw [List.cons_append, List.takeWhile_append_dropWhile]
    · rfl

theorem isGap_leadingGap (text : List Char) : IsGap (leadingGap text) := by
  have hBlanks : ∀ {l : List Char}, ∀ c ∈ l.takeWhile isBlank, isBlank c = true :=
    fun c hc => List.mem_takeWhile_imp hc
  unfold leadingGap
  split
  · rw [List.append_nil]
    exact .blanks hBlanks
  · split
    · rename_i hMark
      exact .marked hBlanks hMark hBlanks
    · rw [List.append_nil]
      exact .blanks hBlanks

theorem length_le_takeWhile {front text : List Char} (h : front <+: text)
    (hBlank : ∀ c ∈ front, isBlank c = true) : front.length ≤ (text.takeWhile isBlank).length := by
  obtain ⟨back, rfl⟩ := h
  rw [List.takeWhile_append_of_pos hBlank, List.length_append]
  exact Nat.le_add_right _ _

theorem leadingGap_of_marked {before : List Char} (hBefore : ∀ c ∈ before, isBlank c = true)
    {mark : Char} (hMark : isSeparator mark = true) (rest : List Char) :
    leadingGap (before ++ mark :: rest) = before ++ mark :: rest.takeWhile isBlank := by
  have hNotBlank := isBlank_of_isSeparator hMark
  unfold leadingGap
  rw [List.takeWhile_append_of_pos hBefore, List.dropWhile_append_of_pos hBefore]
  simp [hNotBlank, hMark]

theorem longest_leadingGap (text : List Char) : Longest IsGap text (leadingGap text) := by
  refine ⟨⟨_, leadingGap_append_afterBlank text⟩, isGap_leadingGap text, fun other hOther hGap => ?_⟩
  cases hGap with
  | blanks hBlank =>
    refine (length_le_takeWhile hOther hBlank).trans ?_
    rw [leadingGap, List.length_append]
    exact Nat.le_add_right _ _
  | marked hBefore hMark hAfter =>
    obtain ⟨back, rfl⟩ := hOther
    rw [List.append_assoc, List.cons_append, leadingGap_of_marked hBefore hMark]
    have hLe := length_le_takeWhile (List.prefix_append _ back) hAfter
    simp only [List.length_append, List.length_cons]
    omega

theorem IsGap.not_mem_backslash {text : List Char} (h : IsGap text) : '\\' ∉ text := by
  have hBlanks : ∀ {l : List Char}, (∀ c ∈ l, isBlank c = true) → '\\' ∉ l := fun hBlank hMem => by
    have hSlash := hBlank '\\' hMem
    revert hSlash
    decide
  cases h with
  | blanks hBlank => exact hBlanks hBlank
  | marked hBefore hMark hAfter =>
    simp only [List.mem_append, List.mem_cons, not_or]
    refine ⟨hBlanks hBefore, ?_, hBlanks hAfter⟩
    rintro rfl
    revert hMark
    decide

theorem IsGap.countP_le {text : List Char} (h : IsGap text) : text.countP isSeparator ≤ 1 := by
  have hBlanks : ∀ {l : List Char}, (∀ c ∈ l, isBlank c = true) → l.countP isSeparator = 0 := by
    intro l hBlank
    refine List.countP_eq_zero.mpr fun c hc hMark => ?_
    have hNotBlank := isBlank_of_isSeparator hMark
    rw [hBlank c hc] at hNotBlank
    cases hNotBlank
  cases h with
  | blanks hBlank => rw [hBlanks hBlank]; exact Nat.zero_le 1
  | marked hBefore hMark hAfter =>
    rw [List.countP_append, List.countP_cons, hBlanks hBefore, hBlanks hAfter, if_pos hMark]

/-! ## Entries -/

/-- The key, the gap and the value that a line is made of. -/
structure EntryParts (line key gap value : List Char) : Prop where
  line_eq : line = key ++ (gap ++ value)
  key : Longest (Paired IsBare) line key
  gap : Longest IsGap (gap ++ value) gap

theorem EntryParts.unique {line key gap value key' gap' value' : List Char}
    (h : EntryParts line key gap value) (h' : EntryParts line key' gap' value') :
    key = key' ∧ gap = gap' ∧ value = value' := by
  obtain rfl := h.key.unique h'.key
  have hBack : gap ++ value = gap' ++ value' :=
    List.append_cancel_left (h.line_eq.symm.trans h'.line_eq)
  have hGap := h'.gap
  rw [← hBack] at hGap
  obtain rfl := h.gap.unique hGap
  exact ⟨rfl, rfl, List.append_cancel_left hBack⟩

/-- The scanner finds the parts of a line, and all backslashes in the key and in the value have a
character behind them. -/
theorem exists_parts {line : List Char} (h : Whole line) :
    ∃ key gap value, EntryParts line key gap value ∧ splitKey line = (unescaped key, value) ∧
      Whole key ∧ Whole value := by
  obtain ⟨key, back, rfl, hKey, hSplit⟩ := exists_key h
  have hBack := leadingGap_append_afterBlank back
  have hGap := longest_leadingGap back
  have hWholeKey := hKey.holds.whole
  refine ⟨key, leadingGap back, afterBlank back, ⟨by rw [hBack], hKey, by rwa [hBack]⟩, hSplit,
    hWholeKey, ?_⟩
  have hWholeBack : Whole (leadingGap back ++ afterBlank back) := by
    rw [hBack]
    exact (whole_append_iff hWholeKey).mp h
  exact (whole_append_iff (whole_of_not_mem hGap.holds.not_mem_backslash)).mp hWholeBack

theorem assignment?_eq_none_iff {line key gap value : List Char} (h : Whole line)
    (hParts : EntryParts line key gap value) : assignment? line = none ↔ key = [] := by
  obtain ⟨_, _, _, hFound, hSplit, hKey, -⟩ := exists_parts h
  obtain ⟨rfl, -, rfl⟩ := hParts.unique hFound
  simp [assignment?, hSplit, unescaped_eq_nil_iff hKey]

theorem assignment?_of_parts {line key gap value : List Char} (h : Whole line)
    (hParts : EntryParts line key gap value) (hFilled : key ≠ []) :
    ∃ name content, Spells key name ∧ Spells value content ∧
      assignment? line = some (String.ofList name, String.ofList (trimEnd content)) := by
  obtain ⟨_, _, _, hFound, hSplit, hKey, hValue⟩ := exists_parts h
  obtain ⟨rfl, -, rfl⟩ := hParts.unique hFound
  refine ⟨unescaped key, unescaped value, hKey.spells, hValue.spells, ?_⟩
  simp [assignment?, hSplit, unescaped_eq_nil_iff hKey, hFilled]

theorem key_ne_of_assignment? {line : List Char} {e : String × String}
    (h : assignment? line = some e) : e.1 ≠ "" := by
  intro hEmpty
  unfold assignment? at h
  dsimp only at h
  split at h
  · cases h
  · rename_i hFilled
    obtain rfl := Option.some.inj h
    rw [String.ofList_eq_empty_iff] at hEmpty
    exact hFilled (by rw [hEmpty]; rfl)

/-- A property text declares no key that is empty. -/
theorem contains_parse_empty (text : String) : (parse text).contains "" = false := by
  have hNone : (((logicalLines text.toList).filterMap assignment?).reverse.find? (·.1 = "")) =
      none := by
    rw [List.find?_eq_none]
    intro e he
    obtain ⟨line, -, hLine⟩ := List.mem_filterMap.mp (List.mem_reverse.mp he)
    simpa using key_ne_of_assignment? hLine
  rw [contains, parse, get?_ofList, hNone]
  rfl

/-- Every logical line of a property text has a key, a gap and a value. The gap has at most one
separator, so a second one belongs to the value. The line is no entry just when its key is empty;
otherwise the entry has what the key spells, and what the value spells without the blanks at its
end. No key that the text declares is empty. -/
theorem entries_follow_grammar (text : String) :
    (∀ line ∈ logicalLines text.toList,
      (∃ key gap value, EntryParts line key gap value) ∧
        ∀ key gap value, EntryParts line key gap value →
          gap.countP isSeparator ≤ 1 ∧ (assignment? line = none ↔ key = []) ∧
            (key ≠ [] → ∃ name content, Spells key name ∧ Spells value content ∧
              assignment? line = some (String.ofList name, String.ofList (trimEnd content)))) ∧
      (parse text).contains "" = false := by
  refine ⟨fun line hLine => ?_, contains_parse_empty text⟩
  have hWhole : Whole line := whole_iff.mpr (continues_of_mem_logicalLines hLine)
  constructor
  · obtain ⟨key, gap, value, hParts, -⟩ := exists_parts hWhole
    exact ⟨key, gap, value, hParts⟩
  · intro key gap value hParts
    exact ⟨hParts.gap.holds.countP_le, assignment?_eq_none_iff hWhole hParts,
      assignment?_of_parts hWhole hParts⟩

/-- A line that is continued inside its gap, with a separator in the key and another one in the
value. -/
theorem entries_follow_grammar_continued :
    let text := "# c\n a\\:b \\\n  =  = x\\n "
    let line := "a\\:b =  = x\\n ".toList
    line ∈ logicalLines text.toList ∧
      EntryParts line "a\\:b".toList " =  ".toList "= x\\n ".toList ∧
      (∃ name content, Spells "a\\:b".toList name ∧ Spells "= x\\n ".toList content ∧
        assignment? line = some (String.ofList name, String.ofList (trimEnd content))) ∧
      assignment? line = some ("a:b", "= x") := by
  intro text line
  have hLine : line ∈ logicalLines text.toList := by decide
  have hKey : Paired IsBare "a\\:b".toList :=
    .plain (by decide) (by decide) (.taken ':' (.plain (by decide) (by decide) .nil))
  have hBack : ∀ c, " =  = x\\n ".toList.head? = some c → c ≠ '\\' ∧ ¬ IsBare c := by
    intro c hc
    obtain rfl := Option.some.inj hc
    decide
  have hParts : EntryParts line "a\\:b".toList " =  ".toList "= x\\n ".toList :=
    ⟨by decide, hKey.longest hBack, longest_leadingGap " =  = x\\n ".toList⟩
  have hEntry := (((entries_follow_grammar text).1 line hLine).2 _ _ _ hParts).2.2
  exact ⟨hLine, hParts, hEntry (by decide), by decide⟩

end Heritage.Properties
