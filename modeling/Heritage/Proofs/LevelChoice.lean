import Heritage.Kinds.SdkChoice
import Heritage.Proofs.Distinct
import Mathlib.Data.List.DropRight

/-!
# Levels after many choices

Choices of levels are laid over one another, one after another. The last choice that names levels
replaces all before it, bounds included. From there on each bound is the last one declared, and the
named levels stay until a bound is declared behind them.

* `SdkChoice.settled`: what is left of a first choice and the choices laid over it, said without
  laying any over another;
* `SdkChoice.settled_concat`: one more choice laid over it;
* `choices_settle`: the choices laid over one another are what is left of them, and select levels
  accordingly.

The first choice may hold levels and bounds at once, as the defaults of a chain may. It counts as
the last one that names levels when no later one does, whether it names any or not.
-/

namespace Heritage

namespace SdkChoice

/-! ## The last choice that names levels -/

/-- How many choices there are up to the last one that names levels. -/
def lastNamed (choices : List SdkChoice) : Nat :=
  (choices.rdropWhile (·.levels = [])).length

/-- Levels are named last at a position, or nowhere behind the first one. -/
structure IsLastNamed (choices : List SdkChoice) (i : Nat) : Prop where
  named : i = 0 ∨ ∃ c, choices[i]? = some c ∧ c.levels ≠ []
  behind : ∀ c ∈ choices.drop (i + 1), c.levels = []

theorem lastNamed_le (choices : List SdkChoice) : lastNamed choices ≤ choices.length :=
  (List.rdropWhile_prefix _ choices).length_le

theorem lastNamed_concat_of_levels {c : SdkChoice} (h : c.levels ≠ []) (choices : List SdkChoice) :
    lastNamed (choices ++ [c]) = choices.length + 1 := by
  rw [lastNamed, List.rdropWhile_concat_neg _ _ _ (by simpa using h), List.length_append,
    List.length_singleton]

theorem lastNamed_concat_of_no_levels {c : SdkChoice} (h : c.levels = [])
    (choices : List SdkChoice) : lastNamed (choices ++ [c]) = lastNamed choices := by
  rw [lastNamed, List.rdropWhile_concat_pos _ _ _ (by simpa using h), lastNamed]

theorem isLastNamed (first : SdkChoice) (rest : List SdkChoice) :
    IsLastNamed (first :: rest) (lastNamed rest) := by
  induction rest using List.reverseRecOn with
  | nil => exact ⟨Or.inl rfl, by simp [lastNamed]⟩
  | append_singleton rest c ih =>
    by_cases h : c.levels = []
    · rw [lastNamed_concat_of_no_levels h]
      have hLe := lastNamed_le rest
      constructor
      · rcases ih.named with hFirst | ⟨named, hNamed, hLevels⟩
        · exact Or.inl hFirst
        · refine Or.inr ⟨named, ?_, hLevels⟩
          rw [← List.cons_append, List.getElem?_append_left (Nat.lt_succ_of_le hLe), hNamed]
      · intro other hOther
        rw [List.drop_succ_cons, List.drop_append_of_le_length hLe] at hOther
        rcases List.mem_append.mp hOther with hBehind | hLast
        · exact ih.behind other (by rwa [List.drop_succ_cons])
        · rw [List.mem_singleton.mp hLast, h]
    · rw [lastNamed_concat_of_levels h]
      exact ⟨Or.inr ⟨c, by simp, h⟩, by simp⟩

/-! ## What is left of choices -/

/-- What is left of a first choice and the choices laid over it. -/
def settled (first : SdkChoice) (rest : List SdkChoice) : SdkChoice :=
  let i := lastNamed rest
  let deciding := (first :: rest).drop i
  { levels := if (rest.drop i).any isBounded then [] else ((first :: rest)[i]?.getD first).levels
    lowest := (deciding.filterMap lowest).getLast?
    highest := (deciding.filterMap highest).getLast? }

theorem settled_nil (first : SdkChoice) : settled first [] = first := by
  obtain ⟨levels, lowest, highest⟩ := first
  cases lowest <;> cases highest <;> rfl

theorem settled_concat_of_levels {c : SdkChoice} (h : c.levels ≠ []) (first : SdkChoice)
    (rest : List SdkChoice) : settled first (rest ++ [c]) = c := by
  have hDeciding : (first :: (rest ++ [c])).drop (rest.length + 1) = [c] := by simp
  have hBehind : (rest ++ [c]).drop (rest.length + 1) = [] := by simp
  have hNamed : (first :: (rest ++ [c]))[rest.length + 1]? = some c := by simp
  rw [settled, lastNamed_concat_of_levels h]
  simp only [hDeciding, hBehind, hNamed]
  exact settled_nil c

theorem settled_concat_of_no_levels {c : SdkChoice} (h : c.levels = []) (first : SdkChoice)
    (rest : List SdkChoice) : settled first (rest ++ [c]) = (settled first rest).overlay c := by
  have hLe := lastNamed_le rest
  have hDeciding : (first :: (rest ++ [c])).drop (lastNamed rest) =
      (first :: rest).drop (lastNamed rest) ++ [c] := by
    rw [← List.cons_append, List.drop_append_of_le_length (Nat.le_succ_of_le hLe)]
  have hBehind : (rest ++ [c]).drop (lastNamed rest) = rest.drop (lastNamed rest) ++ [c] :=
    List.drop_append_of_le_length hLe
  have hNamed : (first :: (rest ++ [c]))[lastNamed rest]? = (first :: rest)[lastNamed rest]? := by
    rw [← List.cons_append, List.getElem?_append_left (Nat.lt_succ_of_le hLe)]
  rw [settled, lastNamed_concat_of_no_levels h]
  simp only [hDeciding, hBehind, hNamed, getLast?_filterMap_concat, List.any_append]
  cases hBounded : c.isBounded with
  | false =>
    obtain rfl := eq_empty h hBounded
    have hLowest : empty.lowest = none := rfl
    have hHighest : empty.highest = none := rfl
    rw [overlay_empty]
    simp [settled, hBounded, hLowest, hHighest]
  | true =>
    rw [overlay_of_bounds h hBounded]
    simp [settled, hBounded]

theorem settled_concat (first : SdkChoice) (rest : List SdkChoice) (c : SdkChoice) :
    settled first (rest ++ [c]) = (settled first rest).overlay c := by
  by_cases h : c.levels = []
  · exact settled_concat_of_no_levels h first rest
  · rw [settled_concat_of_levels h, overlay_of_levels h]

/-! ## The levels selected -/

/-- A level lies within the bounds that are set. -/
structure InBounds (c : SdkChoice) (level : UInt32) : Prop where
  lowest : ∀ low ∈ c.lowest, low ≤ level
  highest : ∀ high ∈ c.highest, level ≤ high

theorem admits_iff {c : SdkChoice} {level : UInt32} : c.admits level = true ↔ c.InBounds level := by
  simp only [admits, Bool.and_eq_true, Option.all_eq_true, decide_eq_true_eq]
  exact ⟨fun h => ⟨h.1, h.2⟩, fun h => ⟨h.lowest, h.highest⟩⟩

instance (c : SdkChoice) (level : UInt32) : Decidable (c.InBounds level) :=
  decidable_of_iff _ admits_iff

end SdkChoice

/-- Let choices of levels be laid over a first one, one after another, and let `i` be the last
position at which levels are named, or the first position if no later choice names any. The named
levels are those at `i`, but there are none if a bound is declared behind it; each bound is the last
one declared at `i` or behind it. Named levels are selected as they are; without any, the known
levels within the bounds are. -/
theorem choices_settle (first : SdkChoice) (rest : List SdkChoice) :
    SdkChoice.IsLastNamed (first :: rest) (SdkChoice.lastNamed rest) ∧
      rest.foldl SdkChoice.overlay first = .settled first rest ∧
      ∀ known, (rest.foldl SdkChoice.overlay first).select known =
        let result := SdkChoice.settled first rest
        if result.levels = [] then known.filter (result.InBounds ·) else result.levels := by
  have hSettled : rest.foldl SdkChoice.overlay first = .settled first rest := by
    induction rest using List.reverseRecOn with
    | nil => exact (SdkChoice.settled_nil first).symm
    | append_singleton rest c ih => rw [List.foldl_concat, ih, SdkChoice.settled_concat]
  refine ⟨SdkChoice.isLastNamed first rest, hSettled, fun known => ?_⟩
  rw [hSettled, SdkChoice.select]
  refine if_congr Iff.rfl (List.filter_congr fun level _ => ?_) rfl
  rw [Bool.eq_iff_iff, SdkChoice.admits_iff, decide_eq_true_iff]

end Heritage
