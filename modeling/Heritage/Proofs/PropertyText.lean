import Heritage.Properties.Printer
import Mathlib.Data.List.Induction
import Mathlib.Data.String.Basic

/-!
# Reading what was written

Any entries with keys can be written as a property text, whatever characters they hold, and are read
back from it.

* `continues_append_escaped`: what is written with backslashes never continues a line;
* `splitKey_escaped`, `unescaped_escaped`: a written key ends at the equals sign behind it, and
  backslashes are taken away again;
* `Properties.sorted_ofList`, `Properties.get?_ofList`: a set made from entries has each key once,
  with the last value;
* `parse_print`: the set that a written text declares.

Blanks at the end of a value are the one thing that cannot be written: the reader takes them away
behind backslashes too.
-/

namespace Heritage.Properties

open Text

/-! ## Characters behind backslashes -/

theorem escape_of_special {c : Char} (h : isSpecial c = true) : escape c = ['\\', letter c] :=
  if_pos h

theorem escape_of_plain {c : Char} (h : isSpecial c = false) : escape c = [c] :=
  if_neg (by simp [h])

theorem escaped_cons (c : Char) (rest : List Char) :
    escaped (c :: rest) = escape c ++ escaped rest := rfl

theorem ne_backslash_of_plain {c : Char} (h : isSpecial c = false) : c ≠ '\\' := by
  rintro rfl
  revert h
  decide

theorem isBlank_of_plain {c : Char} (h : isSpecial c = false) : isBlank c = false := by
  simp only [isSpecial, Bool.or_eq_false_iff] at h
  exact h.2

theorem isSeparator_of_plain {c : Char} (h : isSpecial c = false) : isSeparator c = false := by
  simp only [isSpecial, Bool.or_eq_false_iff] at h
  exact h.1.2

theorem unescaped_cons_of_ne {c : Char} (h : c ≠ '\\') (rest : List Char) :
    unescaped (c :: rest) = c :: unescaped rest :=
  unescaped.eq_4 c rest (fun hc _ => h hc) fun _ _ hc _ => h hc

theorem splitKey_cons_of_ne {c : Char} (h : c ≠ '\\') (rest : List Char) :
    splitKey (c :: rest) =
      if isSeparator c then ([], rest.dropWhile isBlank)
      else if isBlank c then ([], afterBlank rest)
      else (c :: (splitKey rest).1, (splitKey rest).2) :=
  splitKey.eq_4 c rest (fun hc _ => h hc) fun _ _ hc _ => h hc

theorem unescaped_escaped (text : List Char) : unescaped (escaped text) = text := by
  induction text with
  | nil => rfl
  | cons c rest ih =>
    rw [escaped_cons]
    cases hc : isSpecial c with
    | true =>
      rw [escape_of_special hc]
      show unescape (letter c) :: unescaped (escaped rest) = c :: rest
      rw [unescape_letter hc, ih]
    | false =>
      rw [escape_of_plain hc, List.singleton_append,
        unescaped_cons_of_ne (ne_backslash_of_plain hc), ih]

theorem splitKey_escaped (key rest : List Char) :
    splitKey (escaped key ++ '=' :: rest) = (key, rest.dropWhile isBlank) := by
  induction key with
  | nil =>
    have hNe : '=' ≠ '\\' := by decide
    have hSeparator : isSeparator '=' = true := by decide
    show splitKey ('=' :: rest) = _
    rw [splitKey_cons_of_ne hNe, if_pos hSeparator]
  | cons c key ih =>
    rw [escaped_cons, List.append_assoc]
    cases hc : isSpecial c with
    | true =>
      rw [escape_of_special hc]
      show (unescape (letter c) :: (splitKey (escaped key ++ '=' :: rest)).1,
        (splitKey (escaped key ++ '=' :: rest)).2) = _
      rw [ih, unescape_letter hc]
    | false =>
      rw [escape_of_plain hc, List.singleton_append,
        splitKey_cons_of_ne (ne_backslash_of_plain hc), if_neg (by simp [isSeparator_of_plain hc]),
        if_neg (by simp [isBlank_of_plain hc]), ih]

/-- A written text begins with no blank and no comment mark. -/
theorem head?_escaped {text : List Char} {c : Char} (h : (escaped text).head? = some c) :
    c = '\\' ∨ isSpecial c = false := by
  cases text with
  | nil => cases h
  | cons d rest =>
    cases hd : isSpecial d with
    | true =>
      rw [escaped_cons, escape_of_special hd] at h
      exact Or.inl (Option.some.inj h).symm
    | false =>
      rw [escaped_cons, escape_of_plain hd] at h
      exact Or.inr (Option.some.inj h ▸ hd)

theorem trimStart_escaped (text : List Char) : trimStart (escaped text) = escaped text := by
  rw [trimStart_eq_self_iff]
  intro c hc
  rcases head?_escaped hc with rfl | hPlain
  · decide
  · exact isBlank_of_plain hPlain

/-- A written line gives its entry back, but for the blanks at the end of the value. -/
theorem assignment?_line {key : String} (h : key ≠ "") (value : String) :
    assignment? (line key value) =
      some (key, String.ofList (trimEnd value.toList)) := by
  have hKey : key.toList.isEmpty = false := by
    rw [List.isEmpty_eq_false_iff]
    exact fun hNil => h (String.toList_eq_nil_iff.mp hNil)
  have hValue : (escaped value.toList).dropWhile isBlank = escaped value.toList :=
    trimStart_escaped value.toList
  unfold assignment? line
  rw [splitKey_escaped, hValue]
  simp only [hKey, Bool.false_eq_true, if_false, unescaped_escaped, String.ofList_toList]

/-! ## Lines -/

theorem continues_concat_of_ne {c : Char} (h : c ≠ '\\') (front : List Char) :
    continues (front ++ [c]) = false := by
  simp [continues, h]

theorem continues_append_backslashes (front : List Char) :
    continues (front ++ ['\\', '\\']) = continues front := by
  have hTwo : ((front ++ ['\\', '\\']).reverse.takeWhile (· = '\\')).length =
      (front.reverse.takeWhile (· = '\\')).length + 2 := by simp
  simp only [continues, hTwo, Nat.add_mod_right]

theorem continues_append_escape {front : List Char} (h : continues front = false) (c : Char) :
    continues (front ++ escape c) = false := by
  cases hc : isSpecial c with
  | true =>
    rw [escape_of_special hc]
    by_cases hSlash : c = '\\'
    · subst hSlash
      exact (continues_append_backslashes front).trans h
    · have hLetter : letter c ≠ '\\' := mt letter_eq_backslash_iff.mp hSlash
      have hCut : front ++ ['\\', letter c] = (front ++ ['\\']) ++ [letter c] := by simp
      rw [hCut]
      exact continues_concat_of_ne hLetter (front ++ ['\\'])
  | false =>
    rw [escape_of_plain hc]
    exact continues_concat_of_ne (ne_backslash_of_plain hc) front

theorem continues_append_escaped {front : List Char} (h : continues front = false)
    (text : List Char) : continues (front ++ escaped text) = false := by
  induction text generalizing front with
  | nil => simpa [escaped] using h
  | cons c rest ih =>
    rw [escaped_cons, ← List.append_assoc]
    exact ih (continues_append_escape h c)

theorem not_mem_escaped {d : Char} (h : d ∈ lettered) (text : List Char) : d ∉ escaped text := by
  have hSpecial : isSpecial d = true ∧ d ≠ '\\' := by
    rcases mem_lettered.mp h with rfl | rfl | rfl | rfl <;> decide
  intro hMem
  obtain ⟨c, -, hc⟩ := List.mem_flatMap.mp hMem
  cases hPlain : isSpecial c with
  | true =>
    rw [escape_of_special hPlain] at hc
    simp only [List.mem_cons, List.not_mem_nil, or_false] at hc
    rcases hc with hSlash | hLetter
    · exact hSpecial.2 hSlash
    · exact letter_not_mem c (hLetter ▸ h)
  | false =>
    rw [escape_of_plain hPlain] at hc
    rw [← List.mem_singleton.mp hc, hSpecial.1] at hPlain
    cases hPlain

/-- A line holds no line end. -/
theorem not_mem_line {d : Char} (h : d ∈ lettered) (key value : String) : d ∉ line key value := by
  have hEquals : d ≠ '=' := by
    rintro rfl
    revert h
    decide
  simp [line, not_mem_escaped h, hEquals]

theorem continues_line (key value : String) : continues (line key value) = false := by
  have hKey : continues (escaped key.toList ++ ['=']) = false :=
    continues_concat_of_ne (by decide) _
  have hCut : line key value = (escaped key.toList ++ ['=']) ++ escaped value.toList := by
    simp [line]
  rw [hCut]
  exact continues_append_escaped hKey value.toList

theorem line_ne_nil (key value : String) : line key value ≠ [] := by
  simp [line]

/-- The first character of a line is the first one of what is written for the key. -/
theorem head?_line {key : String} (h : key ≠ "") {value : String} {c : Char}
    (hc : (line key value).head? = some c) : c = '\\' ∨ isSpecial c = false := by
  cases hKey : escaped key.toList with
  | nil =>
    have hNil : key.toList = [] := by rw [← unescaped_escaped key.toList, hKey]; rfl
    exact absurd (String.toList_eq_nil_iff.mp hNil) h
  | cons d rest =>
    rw [line, hKey] at hc
    apply @head?_escaped key.toList c
    rw [hKey]
    exact hc

theorem trimStart_line {key : String} (h : key ≠ "") (value : String) :
    trimStart (line key value) = line key value := by
  rw [trimStart_eq_self_iff]
  intro c hc
  rcases head?_line h hc with rfl | hPlain
  · decide
  · exact isBlank_of_plain hPlain

theorem isSkipped_line {key : String} (h : key ≠ "") (value : String) :
    isSkipped (line key value) = false := by
  cases hLine : line key value with
  | nil => exact absurd hLine (line_ne_nil key value)
  | cons c rest =>
    have hHead : c = '\\' ∨ isSpecial c = false := head?_line h (by rw [hLine]; rfl)
    have hMark : ∀ d, isSpecial d = true → d ≠ '\\' → c ≠ d := by
      rintro d hd hSlash rfl
      rcases hHead with hHead | hHead
      · exact hSlash hHead
      · rw [hHead] at hd
        cases hd
    have hHash := hMark '#' (by decide) (by decide)
    have hBang := hMark '!' (by decide) (by decide)
    simp [isSkipped, hHash, hBang]

/-- Lines that are neither skipped, trimmed nor continued are the logical lines. -/
theorem gather_of_whole {physical : List (List Char)} (h : ∀ l ∈ physical,
    trimStart l = l ∧ isSkipped l = false ∧ continues l = false) :
    gather none physical = physical := by
  induction physical with
  | nil => rfl
  | cons first rest ih =>
    obtain ⟨hTrim, hSkipped, hContinues⟩ := h first List.mem_cons_self
    have ih := ih fun l hl => h l (List.mem_cons_of_mem first hl)
    simp [gather, hTrim, hSkipped, hContinues, ih]

theorem linesOfPieces_of_filled {pieces : List (List Char)}
    (h : ∀ p ∈ pieces, p ≠ [] ∧ p.getLast? ≠ some '\r') : linesOfPieces pieces = pieces := by
  induction pieces with
  | nil => rfl
  | cons first rest ih =>
    obtain ⟨hFilled, hReturn⟩ := h first List.mem_cons_self
    have ih := ih fun p hp => h p (List.mem_cons_of_mem first hp)
    cases rest with
    | nil => simp [linesOfPieces, hFilled]
    | cons next rest =>
      rw [linesOfPieces, ih, dropReturn, if_neg hReturn]

theorem lines_intercalate {pieces : List (List Char)} (hNewline : ∀ p ∈ pieces, '\n' ∉ p)
    (h : ∀ p ∈ pieces, p ≠ [] ∧ p.getLast? ≠ some '\r') :
    lines (['\n'].intercalate pieces) = pieces := by
  by_cases hNil : pieces = []
  · subst hNil
    rfl
  · rw [lines, List.splitOn_intercalate '\n' hNewline hNil, linesOfPieces_of_filled h]

/-- Each entry is one logical line of the text. -/
theorem logicalLines_print {entries : List (String × String)} (h : ∀ e ∈ entries, e.1 ≠ "") :
    logicalLines (print entries).toList = entries.map fun e => line e.1 e.2 := by
  have hReturn : ∀ e : String × String, (line e.1 e.2).getLast? ≠ some '\r' := fun e hLast =>
    not_mem_line (by decide) e.1 e.2 (List.mem_of_getLast? hLast)
  have hLines : lines (['\n'].intercalate (entries.map fun e => line e.1 e.2)) =
      entries.map fun e => line e.1 e.2 := by
    refine lines_intercalate (fun p hp => ?_) fun p hp => ?_
    · obtain ⟨e, -, rfl⟩ := List.mem_map.mp hp
      exact not_mem_line (by decide) e.1 e.2
    · obtain ⟨e, -, rfl⟩ := List.mem_map.mp hp
      exact ⟨line_ne_nil e.1 e.2, hReturn e⟩
  rw [logicalLines, print, String.toList_ofList, hLines]
  apply gather_of_whole
  intro l hl
  obtain ⟨e, he, rfl⟩ := List.mem_map.mp hl
  exact ⟨trimStart_line (h e he) e.2, isSkipped_line (h e he) e.2, continues_line e.1 e.2⟩

/-! ## Sets made from entries -/

/-- The keys come in increasing order, so none of them comes twice. -/
def Sorted (entries : List (String × String)) : Prop :=
  entries.Pairwise fun a b => a.1 < b.1

theorem mem_declare {key value : String} {entries : List (String × String)}
    {e : String × String} (h : e ∈ declare key value entries) : e.1 = key ∨ e ∈ entries := by
  induction entries with
  | nil => exact Or.inl (congrArg Prod.fst (List.mem_singleton.mp h))
  | cons first rest ih =>
    obtain ⟨k, old⟩ := first
    unfold declare at h
    split_ifs at h
    · rcases List.mem_cons.mp h with rfl | hRest
      · exact Or.inl rfl
      · exact Or.inr (List.mem_cons_of_mem _ hRest)
    · rcases List.mem_cons.mp h with rfl | hRest
      · exact Or.inl rfl
      · exact Or.inr hRest
    · rcases List.mem_cons.mp h with rfl | hRest
      · exact Or.inr List.mem_cons_self
      · exact (ih hRest).imp_right (List.mem_cons_of_mem _)

theorem Sorted.declare {entries : List (String × String)} (h : Sorted entries)
    (key value : String) : Sorted (declare key value entries) := by
  induction entries with
  | nil => exact List.pairwise_singleton _ _
  | cons first rest ih =>
    obtain ⟨k, old⟩ := first
    obtain ⟨hFirst, hRest⟩ := List.pairwise_cons.mp h
    unfold Properties.declare
    split_ifs with hSame hLess
    · subst hSame
      exact List.pairwise_cons.mpr ⟨hFirst, hRest⟩
    · refine List.pairwise_cons.mpr ⟨fun e he => ?_, h⟩
      rcases List.mem_cons.mp he with rfl | he
      · exact hLess
      · exact hLess.trans (hFirst e he)
    · refine List.pairwise_cons.mpr ⟨fun e he => ?_, ih hRest⟩
      rcases mem_declare he with hKey | he
      · rw [hKey]
        exact lt_of_le_of_ne (not_lt.mp hLess) hSame
      · exact hFirst e he

theorem ofList_concat (entries : List (String × String)) (e : String × String) :
    ofList (entries ++ [e]) = (ofList entries).insert e.1 e.2 := by
  rw [ofList, List.foldl_append]
  rfl

theorem sorted_ofList (entries : List (String × String)) : Sorted (ofList entries).entries := by
  induction entries using List.reverseRecOn with
  | nil => exact List.Pairwise.nil
  | append_singleton entries e ih =>
    rw [ofList_concat]
    exact ih.declare e.1 e.2

/-- A key has the value that it was given last. -/
theorem get?_ofList (entries : List (String × String)) (key : String) :
    (ofList entries).get? key = (entries.reverse.find? (·.1 = key)).map Prod.snd := by
  induction entries using List.reverseRecOn with
  | nil => rfl
  | append_singleton entries e ih =>
    rw [ofList_concat, get?_insert, ih, List.reverse_concat, List.find?_cons]
    by_cases hKey : e.1 = key <;> simp [hKey]

/-! ## Texts -/

/-- A text without the blanks it ends with. -/
def trimmed (value : String) : String :=
  String.ofList (trimEnd value.toList)

theorem parse_print_eq {entries : List (String × String)} (h : ∀ e ∈ entries, e.1 ≠ "") :
    parse (print entries) = ofList (entries.map fun e => (e.1, trimmed e.2)) := by
  have hRead : ∀ e ∈ entries, assignment? (line e.1 e.2) = some (e.1, trimmed e.2) :=
    fun e he => assignment?_line (h e he) e.2
  have hAll : (entries.map fun e => line e.1 e.2).filterMap assignment? =
      entries.map fun e => (e.1, trimmed e.2) := by
    rw [List.filterMap_map, ← List.filterMap_eq_map]
    exact List.filterMap_congr hRead
  rw [parse, logicalLines_print h, hAll]

theorem get?_parse_print {entries : List (String × String)} (h : ∀ e ∈ entries, e.1 ≠ "")
    (key : String) : (parse (print entries)).get? key =
      (entries.reverse.find? (·.1 = key)).map fun e => trimmed e.2 := by
  rw [parse_print_eq h, get?_ofList, ← List.map_reverse, List.find?_map, Option.map_map]
  rfl

/-- Any entries with keys can be written as a text and read back. Each of them is one logical line
of the text, and the text declares every key once, with the value that the key has last, but for the
blanks at its end. -/
theorem parse_print (entries : List (String × String)) (hKeys : ∀ e ∈ entries, e.1 ≠ "") :
    logicalLines (print entries).toList = entries.map (fun e => line e.1 e.2) ∧
      Sorted (parse (print entries)).entries ∧
      ∀ key, (parse (print entries)).get? key =
        (entries.reverse.find? (·.1 = key)).map fun e => trimmed e.2 := by
  refine ⟨logicalLines_print hKeys, ?_, get?_parse_print hKeys⟩
  rw [parse_print_eq hKeys]
  exact sorted_ofList _

/-- Keys and values with comment marks, backslashes and line ends at their ends. -/
def markedEntries : List (String × String) :=
  [("#a\\", "one"), ("\r\n", "\\"), ("!", "\u2028= \\ \u0085"), ("#a\\", ": \t\\\n")]

theorem parse_print_marked :
    (∀ e ∈ markedEntries, e.1 ≠ "") ∧
      (logicalLines (print markedEntries).toList).length = 4 ∧
      (parse (print markedEntries)).get? "#a\\" = some ": \t\\" ∧
      (parse (print markedEntries)).get? "\r\n" = some "\\" ∧
      (parse (print markedEntries)).get? "!" = some "\u2028= \\" := by
  have hKeys : ∀ e ∈ markedEntries, e.1 ≠ "" := by decide
  obtain ⟨hLines, -, hValues⟩ := parse_print markedEntries hKeys
  refine ⟨hKeys, by rw [hLines]; rfl, ?_, ?_, ?_⟩
  · exact (hValues "#a\\").trans (by decide)
  · exact (hValues "\r\n").trans (by decide)
  · exact (hValues "!").trans (by decide)

end Heritage.Properties
