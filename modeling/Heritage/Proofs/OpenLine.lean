import Heritage.Proofs.LineGroups

/-!
# Where a line is open

Lines are joined from one physical line to the next, and all that is carried over is what has been
joined of a line that is being continued, if one is. So a text can be cut behind any of its line
feeds and read in two parts, where the second one goes on with what the first one leaves.

* `lines_append`: the physical lines on both sides of a cut;
* `LineAt`: a physical line with the text before it and the text behind it, which every line of a
  text has (`exists_lineAt`);
* `carry`, `exists_gather_append`: what a physical line leaves to the next one, and the logical lines
  on both sides of a cut;
* `isOpen_eq`: whether a line is being continued can be told from each physical line alone.

What is carried over never ends in an odd number of backslashes (`endsEven_carry`).
-/

namespace Heritage

namespace Text

/-! ## Physical lines -/

/-- A text of whole lines: if it holds anything, it ends in a line feed. -/
def EndsLine (text : List Char) : Prop :=
  ∀ c, text.getLast? = some c → c = '\n'

instance : DecidablePred EndsLine := fun text =>
  decidable_of_iff (text.getLast?.all (· = '\n') = true) (by
    simp only [EndsLine, Option.all_eq_true, decide_eq_true_eq])

theorem endsLine_nil : EndsLine [] := nofun

theorem endsLine_concat (front : List Char) : EndsLine (front ++ ['\n']) := by
  intro c hc
  rw [List.getLast?_concat] at hc
  exact (Option.some.inj hc).symm

theorem endsLine_cases {text : List Char} (h : EndsLine text) :
    text = [] ∨ ∃ front, text = front ++ ['\n'] := by
  rcases List.eq_nil_or_concat text with hNil | ⟨front, c, rfl⟩
  · exact Or.inl hNil
  · rw [List.concat_eq_append] at h ⊢
    exact Or.inr ⟨front, by rw [h c List.getLast?_concat]⟩

theorem EndsLine.append {front back : List Char} (hFront : EndsLine front) (hBack : EndsLine back) :
    EndsLine (front ++ back) := by
  rcases endsLine_cases hBack with rfl | ⟨back, rfl⟩
  · rwa [List.append_nil]
  · rw [← List.append_assoc]
    exact endsLine_concat _

theorem linesOfPieces_append (front : List (List Char)) {back : List (List Char)} (h : back ≠ []) :
    linesOfPieces (front ++ back) = front.map dropReturn ++ linesOfPieces back := by
  induction front with
  | nil => rfl
  | cons piece front ih =>
    obtain ⟨next, rest, hNext⟩ :=
      List.exists_cons_of_ne_nil (List.append_ne_nil_of_right_ne_nil front h)
    rw [List.cons_append, hNext, linesOfPieces, ← hNext, ih, List.map_cons, List.cons_append]

theorem lines_append_feed (front back : List Char) :
    lines (front ++ '\n' :: back) = (front.splitOn '\n').map dropReturn ++ lines back := by
  rw [lines, List.splitOn_append_cons_self, linesOfPieces_append _ (List.splitOn_ne_nil '\n' back),
    lines]

/-- A text can be cut behind any line feed. -/
theorem lines_append {front : List Char} (h : EndsLine front) (back : List Char) :
    lines (front ++ back) = lines front ++ lines back := by
  rcases endsLine_cases h with rfl | ⟨front, rfl⟩
  · rfl
  · have hNone : lines ([] : List Char) = [] := rfl
    rw [List.append_assoc, List.singleton_append, lines_append_feed, lines_append_feed, hNone,
      List.append_nil]

theorem lines_cons {line : List Char} (h : '\n' ∉ line) (rest : List Char) :
    lines (line ++ '\n' :: rest) = dropReturn line :: lines rest := by
  rw [lines_append_feed, List.splitOn_eq_singleton h]
  rfl

theorem dropReturn_of_ne {line : List Char} (h : line.getLast? ≠ some '\r') :
    dropReturn line = line :=
  if_neg h

theorem dropReturn_concat (line : List Char) : dropReturn (line ++ ['\r']) = line := by
  simp [dropReturn]

theorem dropReturn_cases (line : List Char) :
    (line.getLast? ≠ some '\r' ∧ dropReturn line = line) ∨
      ∃ front, line = front ++ ['\r'] ∧ dropReturn line = front := by
  by_cases h : line.getLast? = some '\r'
  · obtain ⟨front, rfl⟩ := List.getLast?_eq_some_iff.mp h
    exact Or.inr ⟨front, rfl, dropReturn_concat front⟩
  · exact Or.inl ⟨h, dropReturn_of_ne h⟩

theorem isPrefix_dropReturn (line : List Char) : dropReturn line <+: line := by
  unfold dropReturn
  split
  · exact List.dropLast_prefix line
  · exact List.prefix_refl line

theorem lines_cons_return {line : List Char} (h : '\n' ∉ line) (rest : List Char) :
    lines (line ++ '\r' :: '\n' :: rest) = line :: lines rest := by
  have hReturn : '\n' ∉ line ++ ['\r'] := by simp [h]
  rw [List.append_cons, lines_cons hReturn, dropReturn_concat]

/-- The last line of a text needs no line feed behind it, but then it must hold something. -/
theorem lines_last {line : List Char} (h : '\n' ∉ line) :
    lines line = if line = [] then [] else [line] := by
  rw [lines, List.splitOn_eq_singleton h, linesOfPieces]
  simp

/-- What can stand behind a physical line: its line end and any text, or nothing at all. -/
inductive EndedBy (line : List Char) : List Char → Prop
  | feed (rest : List Char) (h : line.getLast? ≠ some '\r') : EndedBy line ('\n' :: rest)
  | returnFeed (rest : List Char) : EndedBy line ('\r' :: '\n' :: rest)
  | textEnd (h : line ≠ []) : EndedBy line []

/-- A physical line of a text, with the text before it and the text behind it. -/
structure LineAt (front line back : List Char) : Prop where
  front : EndsLine front
  noFeed : '\n' ∉ line
  back : EndedBy line back

/-- The first line of a text ends with the text, or else there are further lines behind its line
end. -/
theorem exists_first_line {text line : List Char} {later : List (List Char)}
    (h : lines text = line :: later) :
    (text = line ∧ LineAt [] line [] ∧ later = []) ∨
      ∃ lineEnd rest, text = line ++ (lineEnd ++ rest) ∧ LineAt [] line (lineEnd ++ rest) ∧
        EndsLine (line ++ lineEnd) ∧ lines (line ++ lineEnd) = [line] ∧ later = lines rest := by
  have hNone : lines ([] : List Char) = [] := rfl
  by_cases hFeed : '\n' ∈ text
  · obtain ⟨first, rest, rfl, hFirst⟩ := List.eq_append_cons_of_mem hFeed
    have hEnds : EndsLine (first ++ ['\n']) := endsLine_concat first
    have hOne : lines (first ++ ['\n']) = [dropReturn first] := by rw [lines_cons hFirst, hNone]
    rw [lines_cons hFirst] at h
    obtain ⟨rfl, rfl⟩ := List.cons.inj h
    rcases dropReturn_cases first with ⟨hNoReturn, hSame⟩ | ⟨front, rfl, hFront⟩
    · rw [hSame] at hOne ⊢
      exact Or.inr
        ⟨['\n'], rest, rfl, ⟨endsLine_nil, hFirst, .feed rest hNoReturn⟩, hEnds, hOne, rfl⟩
    · rw [hFront] at hOne ⊢
      rw [List.append_assoc] at hEnds hOne
      refine Or.inr ⟨['\r', '\n'], rest, List.append_assoc .., ⟨endsLine_nil, ?_, .returnFeed rest⟩,
        hEnds, hOne, rfl⟩
      exact fun hMem => hFirst (List.mem_append_left _ hMem)
  · rw [lines_last hFeed] at h
    split at h
    · cases h
    · rename_i hFilled
      obtain ⟨rfl, rfl⟩ := List.cons.inj h
      exact Or.inl ⟨rfl, ⟨endsLine_nil, hFeed, .textEnd hFilled⟩, rfl⟩

/-- Every line of a text has its place there. -/
theorem exists_lineAt {text line : List Char} {earlier later : List (List Char)}
    (h : lines text = earlier ++ line :: later) :
    ∃ front back, text = front ++ (line ++ back) ∧ LineAt front line back ∧
      lines front = earlier := by
  induction earlier generalizing text with
  | nil =>
    rcases exists_first_line h with ⟨rfl, hAt, -⟩ | ⟨lineEnd, rest, rfl, hAt, -⟩
    · exact ⟨[], [], (List.append_nil _).symm, hAt, rfl⟩
    · exact ⟨[], lineEnd ++ rest, rfl, hAt, rfl⟩
  | cons first earlier ih =>
    rcases exists_first_line h with ⟨-, -, hLast⟩ | ⟨lineEnd, rest, rfl, -, hEnds, hOne, hRest⟩
    · simp at hLast
    · obtain ⟨front, back, rfl, hAt, rfl⟩ := ih hRest.symm
      refine ⟨first ++ lineEnd ++ front, back, by simp, ⟨hEnds.append hAt.front, hAt.2, hAt.3⟩, ?_⟩
      rw [lines_append hEnds, hOne, List.singleton_append]

end Text

namespace Properties

open Text

/-! ## Blanks before a line -/

theorem trimStart_blanks_append {blanks : List Char} (h : ∀ c ∈ blanks, isBlank c = true)
    (text : List Char) : trimStart (blanks ++ text) = trimStart text :=
  List.dropWhile_append_of_pos h

theorem trimStart_eq_nil {blanks : List Char} (h : ∀ c ∈ blanks, isBlank c = true) :
    trimStart blanks = [] :=
  List.dropWhile_eq_nil_iff.mpr h

/-- A text that begins with no blank is trimmed together with one before it only if that one holds
nothing else than blanks, and then it stays. -/
theorem trimStart_append {right : List Char} (h : trimStart right = right) (left : List Char) :
    trimStart (left ++ right) = trimStart left ++ right := by
  unfold trimStart at h ⊢
  rw [List.dropWhile_append]
  split
  · rename_i hBlanks
    rw [List.isEmpty_iff.mp hBlanks, h, List.nil_append]
  · rfl

theorem continues_blanks {blanks : List Char} (h : ∀ c ∈ blanks, isBlank c = true) :
    continues blanks = false := by
  refine whole_iff.mp (whole_of_not_mem fun hMem => ?_)
  have hSlash := h '\\' hMem
  revert hSlash
  decide

/-- The blanks that a line begins with have no part in whether it is continued. -/
theorem continues_trimStart (line : List Char) : continues (trimStart line) = continues line := by
  have hBlanks : ∀ c ∈ line.takeWhile isBlank, isBlank c = true := fun c hc =>
    List.mem_takeWhile_imp hc
  conv_rhs => rw [← List.takeWhile_append_dropWhile (p := isBlank) (l := line),
    continues_append (continues_blanks hBlanks)]
  rfl

/-! ## Logical lines -/

/-- An entry goes on in a line as it would if it had begun before it. -/
theorem gather_of_entry {pending : Option (List Char)} {line : List Char}
    (h : pending.isSome = true ∨ isSkipped (trimStart line) = false) (rest : List (List Char)) :
    gather pending (line :: rest) = gather (some (pending.getD [])) (line :: rest) := by
  cases pending with
  | none => exact gather_none_of_kept (h.resolve_left nofun) rest
  | some joined => rfl

/-- What is pending behind one more physical line. -/
def carry (pending : Option (List Char)) (line : List Char) : Option (List Char) :=
  if pending = none && isSkipped (trimStart line) then none
  else
    let joined := pending.getD [] ++ trimStart line
    if continues joined then some joined.dropLast else none

/-- The logical line that one more physical line ends, if it ends one, goes before what follows. -/
theorem exists_gather_cons (pending : Option (List Char)) (line : List Char) :
    ∃ ended, ∀ rest, gather pending (line :: rest) = ended ++ gather (carry pending line) rest := by
  unfold carry
  split
  · rename_i hSkipped
    refine ⟨[], fun rest => ?_⟩
    simp only [gather, hSkipped, if_true, List.nil_append]
  · rename_i hKept
    dsimp only
    split
    · rename_i hContinues
      refine ⟨[], fun rest => ?_⟩
      simp only [gather, hKept, Bool.false_eq_true, if_false, hContinues, if_true, List.nil_append]
    · rename_i hEnds
      refine ⟨[pending.getD [] ++ trimStart line], fun rest => ?_⟩
      simp only [gather, hKept, hEnds, Bool.false_eq_true, if_false, List.singleton_append]

/-- Behind any physical line, joining goes on with what is pending there. -/
theorem exists_gather_append (pending : Option (List Char)) (front : List (List Char)) :
    ∃ ended, ∀ back,
      gather pending (front ++ back) = ended ++ gather (front.foldl carry pending) back := by
  induction front generalizing pending with
  | nil => exact ⟨[], fun _ => rfl⟩
  | cons line front ih =>
    obtain ⟨first, hFirst⟩ := exists_gather_cons pending line
    obtain ⟨others, hOthers⟩ := ih (carry pending line)
    refine ⟨first ++ others, fun back => ?_⟩
    rw [List.cons_append, hFirst, hOthers, List.append_assoc, List.foldl_cons]

/-- What is pending, if anything is, does not end in an odd number of backslashes. -/
def EndsEven (pending : Option (List Char)) : Prop :=
  ∀ joined, pending = some joined → continues joined = false

theorem endsEven_none : EndsEven none := nofun

theorem EndsEven.getD {pending : Option (List Char)} (h : EndsEven pending) :
    continues (pending.getD []) = false := by
  cases pending with
  | none => rfl
  | some joined => exact h joined rfl

theorem endsEven_carry (pending : Option (List Char)) (line : List Char) :
    EndsEven (carry pending line) := by
  intro joined hJoined
  unfold carry at hJoined
  dsimp only at hJoined
  split at hJoined
  · cases hJoined
  · split at hJoined
    · rename_i hContinues
      obtain rfl := Option.some.inj hJoined
      exact continues_dropLast hContinues
    · cases hJoined

theorem EndsEven.foldl_carry {pending : Option (List Char)} (h : EndsEven pending)
    (physical : List (List Char)) : EndsEven (physical.foldl carry pending) := by
  induction physical generalizing pending with
  | nil => exact h
  | cons line rest ih => exact ih (endsEven_carry pending line)

/-- Whether a line is being continued behind a line that begins with no blank, where `isOpen` says
whether one is before it. -/
def opens (isOpen : Bool) (line : List Char) : Bool :=
  (isOpen || !isSkipped line) && continues line

/-- Whether a line is being continued behind some physical lines. -/
def isOpen (physical : List (List Char)) : Bool :=
  (trimmedLines physical).foldl opens false

theorem isSome_carry {pending : Option (List Char)} (h : EndsEven pending) (line : List Char) :
    (carry pending line).isSome = opens pending.isSome (trimStart line) := by
  cases pending with
  | none =>
    cases hSkipped : isSkipped (trimStart line) <;>
      cases hContinues : continues (trimStart line) <;>
        simp [carry, opens, hSkipped, hContinues]
  | some joined =>
    have hContinues := continues_append (h joined rfl) (trimStart line)
    cases hLine : continues (trimStart line) <;> simp [carry, opens, hContinues, hLine]

theorem isSome_foldl_carry {pending : Option (List Char)} (h : EndsEven pending)
    (physical : List (List Char)) : (physical.foldl carry pending).isSome =
      (trimmedLines physical).foldl opens pending.isSome := by
  induction physical generalizing pending with
  | nil => rfl
  | cons line rest ih =>
    rw [List.foldl_cons, ih (endsEven_carry pending line), isSome_carry h]
    rfl

theorem isOpen_concat (earlier : List (List Char)) (line : List Char) :
    isOpen (earlier ++ [line]) = opens (isOpen earlier) (trimStart line) := by
  simp [isOpen, trimmedLines]

/-- A line is open just when something is pending. -/
theorem isOpen_eq (physical : List (List Char)) :
    isOpen physical = (physical.foldl carry none).isSome :=
  (isSome_foldl_carry endsEven_none physical).symm

theorem foldl_carry_eq_none {physical : List (List Char)} (h : isOpen physical = false) :
    physical.foldl carry none = none := by
  rwa [isOpen_eq, Option.isSome_eq_false_iff, Option.isNone_iff_eq_none] at h

end Properties

end Heritage
