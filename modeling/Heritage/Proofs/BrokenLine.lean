import Heritage.Proofs.OpenLine

/-!
# Breaking a line

A long line of a property text can be broken in two: the first part gets a backslash, and the second
part may be indented. The set that the text declares stays the same, wherever the line is broken:
inside a key, a separator or a value, before a comment mark, at either end, and also in a line that
is continued or continues another one.

* `broken`: a line in two parts;
* `gather_broken`: the two parts make up the same logical line;
* `parse_broken`: the same for a whole text.

A line that is skipped cannot be broken, since the second part would not be skipped. The first part
must not end in an odd number of backslashes, or it would not be continued behind one more; the
second one must not begin with a blank, which would be lost.
-/

namespace Heritage.Properties

open Text

/-! ## The parts of a line -/

/-- A line in two parts, the first with a backslash behind it and the second with blanks before it. -/
def broken (left gap right : List Char) : List Char :=
  left ++ '\\' :: '\n' :: (gap ++ right)

/-- Of what is pending and the next line, only the two together count. -/
theorem gather_some_congr {pending pending' line line' : List Char}
    (h : pending ++ trimStart line = pending' ++ trimStart line') (rest : List (List Char)) :
    gather (some pending) (line :: rest) = gather (some pending') (line' :: rest) := by
  simp [gather, h]

/-- The first part of a line leaves itself to the second one. -/
theorem gather_left {pending left : List Char} (hPending : continues pending = false)
    (hLeft : continues left = false) (rest : List (List Char)) :
    gather (some pending) ((left ++ ['\\']) :: rest) =
      gather (some (pending ++ trimStart left)) rest := by
  have hTrim : trimStart (left ++ ['\\']) = trimStart left ++ ['\\'] :=
    trimStart_append rfl left
  have hContinues : continues (trimStart (left ++ ['\\'])) = true := by
    rw [continues_trimStart, continues_concat_backslash, hLeft]
    rfl
  rw [gather_some_of_continues hPending hContinues, hTrim, List.dropLast_concat]

theorem isSkipped_left {left right : List Char} (hRight : trimStart right = right)
    (h : isSkipped (trimStart (left ++ right)) = false) :
    isSkipped (trimStart (left ++ ['\\'])) = false := by
  rw [trimStart_append hRight] at h
  rw [trimStart_append rfl]
  cases hLeft : trimStart left with
  | nil => rfl
  | cons c rest => rwa [hLeft] at h

/-- Where the first part has taken its line feed along, the second one is a line with other blanks
before it. Nothing is there if the line was the last one and the second part is empty. -/
theorem lines_right {left right gap back : List Char} (hNoFeed : '\n' ∉ left ++ right)
    (hBack : EndedBy (left ++ right) back) (hRight : trimStart right = right)
    (hGap : ∀ c ∈ gap, isBlank c = true ∧ c ≠ '\n') :
    ∃ later, lines (left ++ right ++ back) = (left ++ right) :: later ∧
      ((∃ line, trimStart line = right ∧ lines (gap ++ right ++ back) = line :: later) ∨
        (right = [] ∧ later = [] ∧ lines (gap ++ right ++ back) = [])) := by
  have hBlank : ∀ c ∈ gap, isBlank c = true := fun c hc => (hGap c hc).1
  have hTrim : trimStart (gap ++ right) = right := by rw [trimStart_blanks_append hBlank, hRight]
  have hRightFeed : '\n' ∉ right := fun hMem => hNoFeed (List.mem_append_right left hMem)
  have hGapFeed : '\n' ∉ gap ++ right := fun hMem =>
    (List.mem_append.mp hMem).elim (fun hMem => (hGap _ hMem).2 rfl) hRightFeed
  cases hBack with
  | feed rest hReturn =>
    refine ⟨lines rest, ?_, Or.inl ⟨dropReturn (gap ++ right), ?_, lines_cons hGapFeed rest⟩⟩
    · rw [lines_cons hNoFeed, dropReturn_of_ne hReturn]
    · by_cases hNil : right = []
      · subst hNil
        rw [List.append_nil]
        exact trimStart_eq_nil fun c hc => hBlank c (isPrefix_dropReturn gap |>.subset hc)
      · rw [List.getLast?_append_of_ne_nil _ hNil] at hReturn
        rw [dropReturn_of_ne, hTrim]
        rwa [List.getLast?_append_of_ne_nil _ hNil]
  | returnFeed rest =>
    exact ⟨lines rest, lines_cons_return hNoFeed rest,
      Or.inl ⟨gap ++ right, hTrim, lines_cons_return hGapFeed rest⟩⟩
  | textEnd hFilled =>
    refine ⟨[], ?_, ?_⟩
    · rw [List.append_nil, lines_last hNoFeed, if_neg hFilled]
    · rw [List.append_nil, lines_last hGapFeed]
      by_cases hNil : gap ++ right = []
      · exact Or.inr ⟨(List.append_eq_nil_iff.mp hNil).2, rfl, if_pos hNil⟩
      · exact Or.inl ⟨gap ++ right, hTrim, if_neg hNil⟩

/-- A line of an entry and its two parts make up the same logical lines, whatever is pending. -/
theorem gather_broken {pending : Option (List Char)} (hPending : EndsEven pending)
    {left right gap back : List Char} (hNoFeed : '\n' ∉ left ++ right)
    (hBack : EndedBy (left ++ right) back)
    (hEntry : pending.isSome = true ∨ isSkipped (trimStart (left ++ right)) = false)
    (hLeft : continues left = false) (hRight : trimStart right = right)
    (hGap : ∀ c ∈ gap, isBlank c = true ∧ c ≠ '\n') :
    gather pending (lines (broken left gap right ++ back)) =
      gather pending (lines (left ++ right ++ back)) := by
  have hLeftEntry : pending.isSome = true ∨ isSkipped (trimStart (left ++ ['\\'])) = false :=
    hEntry.imp_right (isSkipped_left hRight)
  have hLeftLine : lines (broken left gap right ++ back) =
      (left ++ ['\\']) :: lines (gap ++ right ++ back) := by
    have hNoFeed : '\n' ∉ left ++ ['\\'] := by
      simp only [List.mem_append, not_or] at hNoFeed ⊢
      exact ⟨hNoFeed.1, by decide⟩
    have hNoReturn : (left ++ ['\\']).getLast? ≠ some '\r' := by simp
    rw [← dropReturn_of_ne hNoReturn, ← lines_cons hNoFeed]
    simp [broken]
  obtain ⟨later, hLine, hLines⟩ := lines_right hNoFeed hBack hRight hGap
  rw [hLeftLine, hLine, gather_of_entry hEntry, gather_of_entry hLeftEntry,
    gather_left hPending.getD hLeft]
  rcases hLines with ⟨line, hTrim, hLines⟩ | ⟨rfl, rfl, hLines⟩
  · rw [hLines]
    apply gather_some_congr
    rw [hTrim, trimStart_append hRight, List.append_assoc]
  · have hEnds : continues (trimStart left) = false := (continues_trimStart left).trans hLeft
    rw [hLines, List.append_nil, gather_some_of_ends hPending.getD hEnds]
    rfl

/-- A line of a property text that belongs to an entry can be broken in two. It is a line of the
text, so there is text before and behind it; wherever it stands, and whatever it is a part of, the
text with the broken line declares the same set. -/
theorem parse_broken (text : String) (earlier later : List (List Char)) (left gap right : List Char)
    (hLine : lines text.toList = earlier ++ (left ++ right) :: later)
    (hEntry : isOpen earlier = true ∨ isSkipped (trimStart (left ++ right)) = false)
    (hLeft : continues left = false) (hRight : ∀ c, right.head? = some c → isBlank c = false)
    (hGap : ∀ c ∈ gap, isBlank c = true ∧ c ≠ '\n') :
    (∃ front back, text.toList = front ++ (left ++ right ++ back) ∧
      LineAt front (left ++ right) back ∧ lines front = earlier) ∧
    ∀ front back, text.toList = front ++ (left ++ right ++ back) →
      LineAt front (left ++ right) back → lines front = earlier →
      parse (String.ofList (front ++ (broken left gap right ++ back))) = parse text := by
  refine ⟨exists_lineAt hLine, fun front back hText hAt hFront => ?_⟩
  have hTrim : trimStart right = right := trimStart_eq_self_iff.mpr hRight
  have hPending : EndsEven (earlier.foldl carry none) := endsEven_none.foldl_carry earlier
  rw [isOpen_eq] at hEntry
  obtain ⟨ended, hEnded⟩ := exists_gather_append none earlier
  have hLogical : logicalLines (front ++ (broken left gap right ++ back)) =
      logicalLines text.toList := by
    rw [hText, logicalLines, logicalLines, lines_append hAt.front, lines_append hAt.front, hFront,
      hEnded, hEnded, gather_broken hPending hAt.noFeed hAt.back hEntry hLeft hTrim hGap]
  rw [parse, parse, String.toList_ofList, hLogical]

/-- A comment that ends in a backslash, and an entry whose second line is broken before a comment
mark, with a carriage return and a tab before the second part. -/
theorem parse_broken_before_mark :
    let text := "# c\\\na\\\n  #b: x\r\nk"
    let earlier := ["# c\\".toList, "a\\".toList]
    lines text.toList = earlier ++ ("  ".toList ++ "#b: x".toList) :: ["k".toList] ∧
      isOpen earlier = true ∧ continues "  ".toList = false ∧
      parse "# c\\\na\\\n  \\\n\r\t#b: x\r\nk" = parse text ∧
      (parse text).get? "a#b" = some "x" := by
  intro text earlier
  have hLine : lines text.toList =
      earlier ++ ("  ".toList ++ "#b: x".toList) :: ["k".toList] := by decide
  have hOpen : isOpen earlier = true := by decide
  have hLeft : continues "  ".toList = false := by decide
  have hRight : ∀ c, "#b: x".toList.head? = some c → isBlank c = false := by
    intro c hc
    obtain rfl := Option.some.inj hc
    decide
  have hGap : ∀ c ∈ "\r\t".toList, isBlank c = true ∧ c ≠ '\n' :=
    List.forall_mem_cons.mpr ⟨by decide, List.forall_mem_singleton.mpr (by decide)⟩
  have hAt : LineAt "# c\\\na\\\n".toList ("  ".toList ++ "#b: x".toList) "\r\nk".toList :=
    ⟨by decide, by decide, .returnFeed _⟩
  have hParse := (parse_broken text earlier ["k".toList] "  ".toList "\r\t".toList "#b: x".toList
    hLine (Or.inl hOpen) hLeft hRight hGap).2 _ _ (by decide) hAt (by decide)
  exact ⟨hLine, hOpen, hLeft, hParse, by decide⟩

end Heritage.Properties
