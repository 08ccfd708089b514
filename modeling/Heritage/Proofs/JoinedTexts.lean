import Heritage.Proofs.OpenLine

/-!
# Property texts one behind another

With a line feed between them, two property texts make up a text whose set has the values of the
second one and, for the keys that it does not declare, those of the first one.

* `assignment?_concat_blank`: a blank at the end of a line has no part in its entry;
* `assignments_joined`: the entries of the whole text are those of the first one and then those of
  the second one;
* `parse_joined`: the same for the sets, and what it means for lines that are skipped.

The first text must not leave a line open, or the second one would go on with it. A carriage return
that the first text ends in becomes a part of the line end between the two.
-/

namespace Heritage.Properties

open Text

/-! ## Blanks at the end of a line -/

theorem unescaped_append {front : List Char} (h : Whole front) (back : List Char) :
    unescaped (front ++ back) = unescaped front ++ unescaped back := by
  induction h with
  | nil => rfl
  | plain hSlash _ _ ih =>
    rw [List.cons_append, unescaped_cons_of_ne hSlash, unescaped_cons_of_ne hSlash, ih,
      List.cons_append]
  | taken c _ ih =>
    rw [List.cons_append, List.cons_append, unescaped, unescaped, ih, List.cons_append]

theorem ne_backslash_of_blank {c : Char} (h : isBlank c = true) : c ≠ '\\' := by
  rintro rfl
  revert h
  decide

theorem trimEnd_concat_blank {c : Char} (h : isBlank c = true) (text : List Char) :
    trimEnd (text ++ [c]) = trimEnd text := by
  simp [trimEnd, h]

theorem dropWhile_concat_blank {c : Char} (h : isBlank c = true) (text : List Char) :
    (text ++ [c]).dropWhile isBlank = text.dropWhile isBlank ++ [c] ∨
      (text ++ [c]).dropWhile isBlank = text.dropWhile isBlank := by
  rw [List.dropWhile_append]
  split
  · rename_i hBlanks
    rw [List.isEmpty_iff.mp hBlanks]
    exact Or.inr (List.dropWhile_cons_of_pos h)
  · exact Or.inl rfl

theorem afterBlank_concat_blank {c : Char} (h : isBlank c = true) (text : List Char) :
    afterBlank (text ++ [c]) = afterBlank text ++ [c] ∨
      afterBlank (text ++ [c]) = afterBlank text := by
  unfold afterBlank
  rw [List.dropWhile_append]
  cases text.dropWhile isBlank with
  | nil => exact Or.inr (by simp [h])
  | cons d rest =>
    by_cases hMark : isSeparator d = true
    · simpa [hMark] using dropWhile_concat_blank h rest
    · exact Or.inl (by simp [hMark])

/-- A blank at the end of a line is the last character of the value, or else it is in the gap. -/
theorem splitKey_concat_blank {c : Char} (h : isBlank c = true) {line : List Char}
    (hLine : Whole line) : (splitKey (line ++ [c])).1 = (splitKey line).1 ∧
      ((splitKey (line ++ [c])).2 = (splitKey line).2 ++ [c] ∨
        (splitKey (line ++ [c])).2 = (splitKey line).2) := by
  induction hLine with
  | nil =>
    have hBare : ¬ IsBare c := fun hBare => by simp [hBare.2] at h
    rw [List.nil_append, splitKey_of_not_bare (ne_backslash_of_blank h) hBare,
      afterBlank_of_blank h]
    exact ⟨rfl, Or.inr rfl⟩
  | @plain d rest hSlash _ _ ih =>
    rw [List.cons_append, splitKey_cons_of_ne hSlash, splitKey_cons_of_ne hSlash]
    by_cases hMark : isSeparator d = true
    · rw [if_pos hMark, if_pos hMark]
      exact ⟨rfl, dropWhile_concat_blank h rest⟩
    · rw [if_neg hMark, if_neg hMark]
      by_cases hBlank : isBlank d = true
      · rw [if_pos hBlank, if_pos hBlank]
        exact ⟨rfl, afterBlank_concat_blank h rest⟩
      · rw [if_neg hBlank, if_neg hBlank]
        exact ⟨congrArg (d :: ·) ih.1, ih.2⟩
  | taken d _ ih =>
    rw [List.cons_append, List.cons_append, splitKey, splitKey]
    exact ⟨congrArg (unescape d :: ·) ih.1, ih.2⟩

/-- An entry is the same with a blank more at the end of its line. -/
theorem assignment?_concat_blank {c : Char} (h : isBlank c = true) {line : List Char}
    (hLine : continues line = false) : assignment? (line ++ [c]) = assignment? line := by
  have hWhole : Whole line := whole_iff.mpr hLine
  obtain ⟨key, gap, value, -, hSplit, -, hValue⟩ := exists_parts hWhole
  obtain ⟨hKey, hBehind⟩ := splitKey_concat_blank h hWhole
  have hText : trimEnd (unescaped (splitKey (line ++ [c])).2) =
      trimEnd (unescaped (splitKey line).2) := by
    rcases hBehind with hBehind | hBehind
    · have hBlank : unescaped [c] = [c] := unescaped_cons_of_ne (ne_backslash_of_blank h) []
      rw [hBehind, hSplit, unescaped_append hValue, hBlank, trimEnd_concat_blank h]
    · rw [hBehind]
  simp only [assignment?, hKey, hText]

/-! ## Entries on both sides of a line feed -/

/-- The entries of a text, in order. -/
def assignments (text : List Char) : List (String × String) :=
  (logicalLines text).filterMap assignment?

/-- A text is made of whole lines and the beginning of one more. -/
theorem exists_last_line (text : List Char) :
    ∃ front last, text = front ++ last ∧ EndsLine front ∧ '\n' ∉ last := by
  induction text using List.reverseRecOn with
  | nil => exact ⟨[], [], rfl, endsLine_nil, List.not_mem_nil⟩
  | append_singleton text c ih =>
    by_cases hFeed : c = '\n'
    · subst hFeed
      exact ⟨text ++ ['\n'], [], (List.append_nil _).symm, endsLine_concat text, List.not_mem_nil⟩
    · obtain ⟨front, last, rfl, hFront, hLast⟩ := ih
      refine ⟨front, last ++ [c], List.append_assoc .., hFront, ?_⟩
      simp [hLast, Ne.symm hFeed]

/-- A carriage return at the end of a line is a blank like any other. -/
theorem trimStart_dropReturn (line : List Char) :
    trimStart line = trimStart (dropReturn line) ∨
      trimStart (dropReturn line) ≠ [] ∧
        trimStart line = trimStart (dropReturn line) ++ ['\r'] := by
  rcases dropReturn_cases line with ⟨-, hSame⟩ | ⟨front, rfl, hFront⟩
  · rw [hSame]
    exact Or.inl rfl
  · rw [hFront]
    unfold trimStart
    rw [List.dropWhile_append]
    split
    · rename_i hBlanks
      rw [List.isEmpty_iff.mp hBlanks]
      exact Or.inl (by decide)
    · rename_i hFilled
      exact Or.inr ⟨fun hNil => hFilled (by rw [hNil]; rfl), rfl⟩

theorem isSkipped_dropReturn (line : List Char) :
    isSkipped (trimStart (dropReturn line)) = isSkipped (trimStart line) := by
  rcases trimStart_dropReturn line with hSame | ⟨hFilled, hReturn⟩
  · rw [hSame]
  · obtain ⟨c, rest, hText⟩ := List.exists_cons_of_ne_nil hFilled
    rw [hReturn, hText]
    rfl

/-- The last line of a text makes up the same entries with a line feed behind it, if it leaves no
line open. -/
theorem gather_dropReturn {pending : Option (List Char)} (hPending : EndsEven pending)
    {line : List Char} (hClosed : carry pending (dropReturn line) = none)
    (rest : List (List Char)) :
    (gather pending (dropReturn line :: rest)).filterMap assignment? =
      (gather pending [line]).filterMap assignment? ++ (gather none rest).filterMap assignment? := by
  by_cases hEntry : pending.isSome = true ∨ isSkipped (trimStart (dropReturn line)) = false
  · have hEnds : continues (trimStart (dropReturn line)) = false := by
      have hOpens := isSome_carry hPending (dropReturn line)
      rw [hClosed, opens, Option.isSome_none] at hOpens
      rcases hEntry with hEntry | hEntry <;> simpa [hEntry] using hOpens.symm
    have hJoined : continues (pending.getD [] ++ trimStart (dropReturn line)) = false := by
      rw [continues_append hPending.getD, hEnds]
    have hSame : assignment? (pending.getD [] ++ trimStart line) =
          assignment? (pending.getD [] ++ trimStart (dropReturn line)) ∧
        continues (trimStart line) = false := by
      rcases trimStart_dropReturn line with hSame | ⟨-, hReturn⟩
      · rw [hSame]
        exact ⟨rfl, hEnds⟩
      · rw [hReturn, ← List.append_assoc, assignment?_concat_blank (by decide) hJoined]
        exact ⟨rfl, continues_concat_of_ne (by decide) _⟩
    have hLineEntry := hEntry
    rw [isSkipped_dropReturn] at hLineEntry
    have hNone : gather none [] = [] := rfl
    rw [gather_of_entry hEntry, gather_of_entry hLineEntry, gather_some_of_ends hPending.getD hEnds,
      gather_some_of_ends hPending.getD hSame.2, hNone, ← List.singleton_append,
      List.filterMap_append]
    simp only [List.filterMap_cons, List.filterMap_nil, hSame.1]
  · rw [not_or, Bool.not_eq_true, Option.isSome_eq_false_iff, Option.isNone_iff_eq_none,
      Bool.not_eq_false] at hEntry
    obtain ⟨rfl, hSkipped⟩ := hEntry
    have hLineSkipped := hSkipped
    rw [isSkipped_dropReturn] at hLineSkipped
    rw [gather_none_of_skipped hSkipped, gather_none_of_skipped hLineSkipped]
    rfl

theorem gather_empty_line {pending : Option (List Char)} (h : EndsEven pending) :
    gather pending [[]] = gather pending [] := by
  cases pending with
  | none => rfl
  | some joined =>
    rw [gather_some_of_ends (h joined rfl) rfl, trimStart_eq_nil (List.forall_mem_nil _),
      List.append_nil]
    rfl

theorem lines_ended {front last : List Char} (hFront : EndsLine front) (hLast : '\n' ∉ last) :
    lines (front ++ last ++ ['\n']) = lines front ++ [dropReturn last] := by
  rw [List.append_assoc, lines_append hFront, lines_cons hLast]
  rfl

/-- Where the first text leaves no line open, its entries come before those of the second one. -/
theorem assignments_joined {first : List Char} (hClosed : isOpen (lines (first ++ ['\n'])) = false)
    (second : List Char) :
    assignments (first ++ '\n' :: second) = assignments first ++ assignments second := by
  obtain ⟨front, last, rfl, hFront, hLast⟩ := exists_last_line first
  have hPending : EndsEven ((lines front).foldl carry none) := endsEven_none.foldl_carry _
  have hCarry : carry ((lines front).foldl carry none) (dropReturn last) = none := by
    have hNone := foldl_carry_eq_none hClosed
    rwa [lines_ended hFront hLast, List.foldl_concat] at hNone
  -- a last line that is empty is none, but it would make no difference
  have hLines : gather ((lines front).foldl carry none) (lines last) =
      gather ((lines front).foldl carry none) [last] := by
    rw [lines_last hLast]
    split
    · rename_i hNil
      rw [hNil, gather_empty_line hPending]
    · rfl
  obtain ⟨ended, hGather⟩ := exists_gather_append none (lines front)
  rw [assignments, assignments, assignments, logicalLines, logicalLines, logicalLines,
    List.append_assoc, lines_append hFront, lines_append hFront, lines_cons hLast, hGather, hGather,
    hLines, List.filterMap_append, List.filterMap_append, gather_dropReturn hPending hCarry,
    List.append_assoc]

/-- A text leaves no line open if its last line, looked at alone and without a carriage return at
its end, does not end in an odd number of backslashes. -/
theorem isOpen_of_last {text : List Char}
    (h : ∀ line, (lines text).getLast? = some line → continues (dropReturn line) = false) :
    isOpen (lines (text ++ ['\n'])) = false := by
  obtain ⟨front, last, rfl, hFront, hLast⟩ := exists_last_line text
  have hEnds : continues (dropReturn last) = false := by
    by_cases hNil : last = []
    · rw [hNil]
      rfl
    · apply h
      rw [lines_append hFront, lines_last hLast, if_neg hNil, List.getLast?_concat]
  rw [lines_ended hFront hLast, isOpen_concat, opens, continues_trimStart, hEnds, Bool.and_false]

/-! ## Sets -/

/-- The set of all entries has the values of the later ones and, for other keys, those of the earlier
ones. -/
theorem get?_ofList_append (earlier later : List (String × String)) (key : String) :
    (ofList (earlier ++ later)).get? key =
      ((ofList later).get? key).or ((ofList earlier).get? key) := by
  rw [get?_ofList, get?_ofList, get?_ofList, List.reverse_append, List.find?_append, Option.map_or]

theorem get?_ofList_of_not_mem {entries : List (String × String)} {key : String}
    (h : key ∉ entries.map Prod.fst) : (ofList entries).get? key = none := by
  rw [get?_ofList, Option.map_eq_none_iff, List.find?_eq_none]
  intro e he hKey
  refine h (List.mem_map.mpr ⟨e, List.mem_reverse.mp he, ?_⟩)
  simpa using hKey

theorem get?_ofList_last {earlier later : List (String × String)} {key : String}
    (h : key ∉ later.map Prod.fst) (value : String) :
    (ofList (earlier ++ (key, value) :: later)).get? key = some value := by
  rw [List.append_cons, get?_ofList_append, get?_ofList_of_not_mem h, Option.none_or, ofList_concat,
    get?_insert, if_pos rfl]

theorem gather_none_skipped {skipped : List (List Char)}
    (h : ∀ line ∈ skipped, isSkipped (trimStart line) = true) (rest : List (List Char)) :
    gather none (skipped ++ rest) = gather none rest := by
  induction skipped with
  | nil => rfl
  | cons line skipped ih =>
    rw [List.cons_append, gather_none_of_skipped (h line List.mem_cons_self),
      ih fun other hOther => h other (List.mem_cons_of_mem line hOther)]

/-- Lines that are skipped can stand wherever no line is open. -/
theorem logicalLines_skipped {front skipped : List Char} (hFront : EndsLine front)
    (hClosed : isOpen (lines front) = false) (hSkipped : EndsLine skipped)
    (hLines : ∀ line ∈ lines skipped, isSkipped (trimStart line) = true) (back : List Char) :
    logicalLines (front ++ (skipped ++ back)) = logicalLines (front ++ back) := by
  obtain ⟨ended, hGather⟩ := exists_gather_append none (lines front)
  rw [foldl_carry_eq_none hClosed] at hGather
  rw [logicalLines, logicalLines, lines_append hFront, lines_append hFront, lines_append hSkipped,
    hGather, hGather, gather_none_skipped hLines]

/-- With a line feed between them, two property texts declare the values of the second one and, for
the keys that it does not declare, those of the first one. So a key that is declared again keeps its
last value. And blank lines and comments can stand wherever no line is being continued. -/
theorem parse_joined (first second : String)
    (hLast : ∀ line, (lines first.toList).getLast? = some line →
      continues (dropReturn line) = false) :
    (∀ key, (parse (first ++ "\n" ++ second)).get? key =
      ((parse second).get? key).or ((parse first).get? key)) ∧
    (∀ (text : String) earlier key value later,
      assignments text.toList = earlier ++ (key, value) :: later → key ∉ later.map Prod.fst →
      (parse text).get? key = some value) ∧
    ∀ front skipped back : String, EndsLine front.toList → isOpen (lines front.toList) = false →
      EndsLine skipped.toList → (∀ line ∈ lines skipped.toList, isSkipped (trimStart line) = true) →
      parse (front ++ skipped ++ back) = parse (front ++ back) := by
  have hParse : ∀ text : String, parse text = ofList (assignments text.toList) := fun _ => rfl
  refine ⟨fun key => ?_, fun text earlier key value later hText hLater => ?_,
    fun front skipped back hFront hClosed hSkipped hLines => ?_⟩
  · have hFeed : (first ++ "\n" ++ second).toList = first.toList ++ '\n' :: second.toList := by
      simp
    rw [hParse, hFeed, assignments_joined (isOpen_of_last hLast), get?_ofList_append, hParse,
      hParse]
  · rw [hParse, hText, get?_ofList_last hLater]
  · rw [parse, parse, String.toList_append, String.toList_append, String.toList_append,
      List.append_assoc, logicalLines_skipped hFront hClosed hSkipped hLines]

/-- A continued line that a lone carriage return ends, behind a comment that ends in a backslash; the
second text gives one of the keys another value, and a comment stands before it. -/
theorem parse_joined_at_return :
    let first := "a: 1\nb = 2\n# c\\\nd: x\\\n\r"
    let second := "b: 3\nb 4"
    (∀ line, (lines first.toList).getLast? = some line → continues (dropReturn line) = false) ∧
      (parse (first ++ "\n" ++ second)).get? "a" = some "1" ∧
      (parse (first ++ "\n" ++ second)).get? "b" = some "4" ∧
      (parse (first ++ "\n" ++ second)).get? "d" = some "x" ∧
      (parse second).get? "b" = some "4" ∧
      parse (first ++ "\n" ++ " \t\n# c\\\n" ++ second) = parse (first ++ "\n" ++ second) := by
  intro first second
  have hLast : ∀ line, (lines first.toList).getLast? = some line →
      continues (dropReturn line) = false := by
    intro line hLine
    have hReturn : line = ['\r'] := by
      have hFound : (lines first.toList).getLast? = some ['\r'] := by decide
      rw [hFound] at hLine
      exact (Option.some.inj hLine).symm
    rw [hReturn]
    rfl
  obtain ⟨hValues, hAgain, hSkipped⟩ := parse_joined first second hLast
  refine ⟨hLast, ?_, ?_, ?_, ?_, ?_⟩
  · exact (hValues "a").trans (by decide)
  · exact (hValues "b").trans (by decide)
  · exact (hValues "d").trans (by decide)
  · exact hAgain second [("b", "3")] "b" "4" [] (by decide) (by decide)
  · have hLines : ∀ line ∈ lines " \t\n# c\\\n".toList, isSkipped (trimStart line) = true :=
      List.all_eq_true.mp (by decide)
    exact hSkipped (first ++ "\n") " \t\n# c\\\n" second (by decide) (by decide) (by decide) hLines

end Heritage.Properties
