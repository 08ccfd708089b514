import Heritage.Proofs.EntryGrammar

/-!
# Groups of physical lines

Whether a line is continued is counted on what has been joined so far. It can just as well be told
from each physical line alone, without the blanks it begins with: what has been joined before it
ends in an even number of backslashes, since the one too many has been dropped.

* `groups`: the physical lines that make up one logical line each, found without joining any;
* `gather_eq_groups`: the logical lines are these groups, each joined;
* `logicalLines_eq_groups`: the same for a whole text, and what it means for the scanner of entries.

A group may end with the text although its last line is continued. The backslash of that line is
dropped all the same.
-/

namespace Heritage.Properties

open Text

/-! ## Groups -/

/-- The group that some lines begin with: those that are continued, and the one behind them, whatever
these lines hold. -/
def firstGroup (physical : List (List Char)) : List (List Char) :=
  physical.takeWhile continues ++ (physical.dropWhile continues).take 1

/-- The lines behind the group that some lines begin with. -/
def afterGroup (physical : List (List Char)) : List (List Char) :=
  (physical.dropWhile continues).drop 1

theorem firstGroup_of_continues {line : List Char} (h : continues line = true)
    (rest : List (List Char)) : firstGroup (line :: rest) = line :: firstGroup rest := by
  simp [firstGroup, h]

theorem firstGroup_of_ends {line : List Char} (h : continues line = false)
    (rest : List (List Char)) : firstGroup (line :: rest) = [line] := by
  simp [firstGroup, h]

theorem afterGroup_of_continues {line : List Char} (h : continues line = true)
    (rest : List (List Char)) : afterGroup (line :: rest) = afterGroup rest := by
  simp [afterGroup, h]

theorem afterGroup_of_ends {line : List Char} (h : continues line = false)
    (rest : List (List Char)) : afterGroup (line :: rest) = rest := by
  simp [afterGroup, h]

theorem length_afterGroup_lt (line : List Char) (rest : List (List Char)) :
    (afterGroup (line :: rest)).length < (line :: rest).length := by
  have hLe := (List.dropWhile_suffix (l := line :: rest) continues).length_le
  simp only [afterGroup, List.length_drop, List.length_cons] at hLe ⊢
  omega

/-- The groups of lines, where the lines have lost the blanks they begin with. A group begins at a
line that is neither blank nor a comment. -/
def groups : List (List Char) → List (List (List Char))
  | [] => []
  | line :: rest =>
    if isSkipped line then groups rest
    else firstGroup (line :: rest) :: groups (afterGroup (line :: rest))
termination_by physical => physical.length
decreasing_by
  · exact Nat.lt_succ_self rest.length
  · exact length_afterGroup_lt line rest

/-- A line without the backslash that continues it. -/
def uncontinued (line : List Char) : List Char :=
  if continues line then line.dropLast else line

/-- The logical line that a group makes up. -/
def joined (group : List (List Char)) : List Char :=
  group.flatMap uncontinued

/-! ## Lines that are joined one by one -/

/-- Lines without the blanks they begin with. -/
def trimmedLines (physical : List (List Char)) : List (List Char) :=
  physical.map trimStart

theorem gather_none_of_skipped {line : List Char} (h : isSkipped (trimStart line) = true)
    (rest : List (List Char)) : gather none (line :: rest) = gather none rest := by
  simp [gather, h]

theorem gather_none_of_kept {line : List Char} (h : isSkipped (trimStart line) = false)
    (rest : List (List Char)) : gather none (line :: rest) = gather (some []) (line :: rest) := by
  simp [gather, h]

theorem gather_some_of_continues {pending line : List Char} (hPending : continues pending = false)
    (h : continues (trimStart line) = true) (rest : List (List Char)) :
    gather (some pending) (line :: rest) =
      gather (some (pending ++ (trimStart line).dropLast)) rest := by
  have hFilled : trimStart line ≠ [] := by
    intro hNil
    rw [hNil] at h
    cases h
  simp [gather, continues_append hPending, h, List.dropLast_append_of_ne_nil hFilled]

theorem gather_some_of_ends {pending line : List Char} (hPending : continues pending = false)
    (h : continues (trimStart line) = false) (rest : List (List Char)) :
    gather (some pending) (line :: rest) = (pending ++ trimStart line) :: gather none rest := by
  simp [gather, continues_append hPending, h]

theorem joined_cons_of_continues {line : List Char} (h : continues line = true)
    (group : List (List Char)) : joined (line :: group) = line.dropLast ++ joined group := by
  rw [joined, List.flatMap_cons, uncontinued, if_pos h, joined]

theorem joined_singleton_of_ends {line : List Char} (h : continues line = false) :
    joined [line] = line := by
  simp [joined, uncontinued, h]

/-- While a line is being continued, what has been joined of it ends in an even number of
backslashes, and it is the beginning of what the next group makes up. -/
theorem gather_eq_groups (physical : List (List Char)) :
    gather none physical = (groups (trimmedLines physical)).map joined ∧
      ∀ pending, continues pending = false → gather (some pending) physical =
        (pending ++ joined (firstGroup (trimmedLines physical))) ::
          (groups (afterGroup (trimmedLines physical))).map joined := by
  induction physical with
  | nil => simp [gather, trimmedLines, groups, firstGroup, afterGroup, joined]
  | cons line rest ih =>
    obtain ⟨ihNone, ihSome⟩ := ih
    have hTrimmed : trimmedLines (line :: rest) = trimStart line :: trimmedLines rest := rfl
    have hSome : ∀ pending, continues pending = false → gather (some pending) (line :: rest) =
        (pending ++ joined (firstGroup (trimmedLines (line :: rest)))) ::
          (groups (afterGroup (trimmedLines (line :: rest)))).map joined := by
      intro pending hPending
      rw [hTrimmed]
      cases h : continues (trimStart line) with
      | true =>
        have hJoined : continues (pending ++ (trimStart line).dropLast) = false := by
          rw [continues_append hPending, continues_dropLast h]
        rw [gather_some_of_continues hPending h, ihSome _ hJoined, firstGroup_of_continues h,
          afterGroup_of_continues h, joined_cons_of_continues h, List.append_assoc]
      | false =>
        rw [gather_some_of_ends hPending h, ihNone, firstGroup_of_ends h, afterGroup_of_ends h,
          joined_singleton_of_ends h]
    refine ⟨?_, hSome⟩
    cases h : isSkipped (trimStart line) with
    | true => rw [gather_none_of_skipped h, ihNone, hTrimmed, groups, if_pos h]
    | false =>
      rw [gather_none_of_kept h, hSome [] rfl, hTrimmed, groups, if_neg (by simp [h]), List.map_cons,
        List.nil_append]

/-- The logical lines of a text are what the groups of its physical lines make up, where each group
goes on as long as its last line, looked at alone, ends in an odd number of backslashes. No logical
line does, and so the scanner finds another character behind every backslash in the key and in the
value. -/
theorem logicalLines_eq_groups (text : List Char) :
    logicalLines text = (groups (trimmedLines (lines text))).map joined ∧
      ∀ line ∈ logicalLines text, continues line = false ∧
        ∃ key gap value, EntryParts line key gap value ∧
          splitKey line = (unescaped key, value) ∧ Whole key ∧ Whole value := by
  refine ⟨(gather_eq_groups (lines text)).1, fun line hLine => ?_⟩
  have hEnds := continues_of_mem_logicalLines hLine
  exact ⟨hEnds, exists_parts (whole_iff.mpr hEnds)⟩

/-- A comment that ends in a backslash, a line continued by what looks like a comment and then by an
empty line, backslashes only, and a last line whose backslash continues nothing. -/
theorem logicalLines_eq_groups_of_backslashes :
    let text := "# c\\\na\\\n  # b\\\\\\\n\n \\\\\nx\\".toList
    (groups (trimmedLines (lines text))).map joined =
        ["a# b\\\\".toList, "\\\\".toList, "x".toList] ∧
      "x".toList ∈ logicalLines text ∧ continues "x".toList = false ∧
      ∃ key gap value, EntryParts "x".toList key gap value ∧
        splitKey "x".toList = (unescaped key, value) ∧ Whole key ∧ Whole value := by
  intro text
  have hLines : logicalLines text = ["a# b\\\\".toList, "\\\\".toList, "x".toList] := by decide
  have hLast : "x".toList ∈ logicalLines text := by
    rw [hLines]
    decide
  obtain ⟨hGroups, hScanned⟩ := logicalLines_eq_groups text
  exact ⟨hGroups.symm.trans hLines, hLast, hScanned _ hLast⟩

end Heritage.Properties
