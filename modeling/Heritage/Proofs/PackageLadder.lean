import Heritage.Proofs.Place
import Mathlib.Data.List.Infix
import Mathlib.Data.List.TakeWhile

/-!
# The full ladder of a package

The first segments of a name, from none of them to all, name the packages on the way down to it.
The ladder of a package puts a dot only behind a name that is not empty, so it leaves out the empty
segments that a name begins with, and the dots behind them.

* `packageLadder_eq`: the ladder in closed form, for every name;
* `packageLadder_isChain_prefix`: each name of the ladder begins with the one before;
* `packageLadder_getLast?`: the ladder ends in the name without the empty segments at its front;
* `packageLadder_full_iff`: it is the full ladder just when the name begins with no dot, and just
  then it repeats nothing and ends in the package itself.

Empty segments behind a filled one are not left out: they have names of their own.
-/

namespace Heritage

/-- The names that the first segments of a package make up, from none of them to all. The top level
has no segments. -/
def fullLadder (package : String) : List String :=
  if package = "" then [""] else (segments package).inits.map ".".intercalate

/-- The name that segments make up without the empty ones at the front. -/
def anchored (names : List String) : String :=
  ".".intercalate (names.dropWhile (· = ""))

/-! ## Names without the empty segments at the front -/

theorem anchored_of_head {names : List String} (h : names.head? ≠ some "") :
    anchored names = ".".intercalate names := by
  cases names with
  | nil => rfl
  | cons first rest =>
    have hFirst : first ≠ "" := fun hEmpty => h (congrArg some hEmpty)
    rw [anchored, List.dropWhile_cons_of_neg (by simpa using hFirst)]

theorem head?_intercalate {first : String} (h : first ≠ "") (rest : List String) :
    (".".intercalate (first :: rest)).toList.head? = first.toList.head? := by
  obtain ⟨c, cs, hChars⟩ := List.exists_cons_of_ne_nil (mt String.toList_eq_nil_iff.mp h)
  cases rest with
  | nil => rw [String.intercalate_singleton]
  | cons second rest => simp [String.intercalate_cons_cons, hChars]

/-- A name without empty segments at the front is empty, or begins as one of its segments does. -/
theorem anchored_cases (names : List String) :
    names.dropWhile (· = "") = [] ∧ anchored names = "" ∨
      ∃ first ∈ names, first ≠ "" ∧ names.dropWhile (· = "") ≠ [] ∧
        (anchored names).toList.head? = first.toList.head? := by
  unfold anchored
  cases hNames : names.dropWhile (· = "") with
  | nil => exact Or.inl ⟨rfl, rfl⟩
  | cons first rest =>
    have hFirst : first ≠ "" := by
      have hHead := List.head?_dropWhile_not (· = "") names
      rw [hNames] at hHead
      simpa using hHead
    have hMem : first ∈ names :=
      (List.dropWhile_sublist (· = "")).subset (hNames ▸ List.mem_cons_self)
    exact Or.inr ⟨first, hMem, hFirst, List.cons_ne_nil first rest, head?_intercalate hFirst rest⟩

/-- One more segment extends a name as the ladder does. -/
theorem anchored_concat (names : List String) (segment : String) :
    anchored (names ++ [segment]) =
      if anchored names = "" then segment else anchored names ++ "." ++ segment := by
  obtain ⟨hNone, hEmpty⟩ | ⟨first, -, hFirst, hSome, hHead⟩ := anchored_cases names
  · have hAll : ∀ name ∈ names, decide (name = "") = true := List.dropWhile_eq_nil_iff.mp hNone
    rw [if_pos hEmpty, anchored, List.dropWhile_append_of_pos hAll]
    by_cases hSegment : segment = ""
    · rw [hSegment]
      rfl
    · rw [List.dropWhile_cons_of_neg (by simpa using hSegment), String.intercalate_singleton]
  · have hFilled : anchored names ≠ "" := by
      intro hEmpty
      rw [hEmpty] at hHead
      apply hFirst
      exact String.toList_eq_nil_iff.mp (List.head?_eq_none_iff.mp hHead.symm)
    rw [if_neg hFilled, anchored, anchored, List.dropWhile_append, if_neg (by simpa using hSome),
      String.intercalate_append_of_ne_nil hSome (List.cons_ne_nil segment []),
      String.intercalate_singleton]

/-! ## The ladder in closed form -/

/-- The ladder on from the name that the segments `above` make up. -/
theorem ladderFrom_anchored (above names : List String) :
    anchored above :: ladderFrom (anchored above) names =
      names.inits.map fun below => anchored (above ++ below) := by
  induction names generalizing above with
  | nil => simp [ladderFrom]
  | cons segment rest ih =>
    have hRest := ih (above ++ [segment])
    rw [anchored_concat] at hRest
    rw [ladderFrom, hRest, List.inits_cons, List.map_cons, List.map_map, List.append_nil]
    simp only [Function.comp_def, List.append_assoc, List.singleton_append]

theorem packageLadder_eq (package : String) :
    packageLadder package = if package = "" then [""] else (segments package).inits.map anchored := by
  unfold packageLadder
  split
  · rfl
  · exact ladderFrom_anchored [] (segments package)

theorem getLast?_inits {α : Type} (l : List α) : l.inits.getLast? = some l := by
  have hLength : l.inits.length - 1 = l.length := by simp
  rw [List.getLast?_eq_getElem?, hLength, List.getElem?_eq_getElem (by simp), List.getElem_inits,
    List.take_length]

theorem packageLadder_getLast? (package : String) :
    (packageLadder package).getLast? = some (anchored (segments package)) := by
  rw [packageLadder_eq]
  split
  · rename_i hTop
    rw [hTop]
    rfl
  · rw [List.getLast?_map, getLast?_inits, Option.map_some]

theorem ladderFrom_isChain_prefix (current : String) (names : List String) :
    (current :: ladderFrom current names).IsChain fun p q => p.toList <+: q.toList := by
  induction names generalizing current with
  | nil => exact List.isChain_singleton current
  | cons segment rest ih =>
    refine List.IsChain.cons_cons ?_ (ih _)
    split
    · rename_i hTop
      rw [hTop]
      exact List.nil_prefix
    · simp

theorem packageLadder_isChain_prefix (package : String) :
    (packageLadder package).IsChain fun p q => p.toList <+: q.toList := by
  unfold packageLadder
  split
  · exact List.isChain_singleton ""
  · exact ladderFrom_isChain_prefix "" (segments package)

/-! ## Names that begin with a dot -/

theorem intercalate_segments (package : String) : ".".intercalate (segments package) = package := by
  have hChars : (segments package).map String.toList = package.toList.splitOn '.' := by
    simp [segments]
  rw [← String.toList_inj, String.toList_intercalate, hChars]
  exact List.intercalate_splitOn '.'

theorem segments_head?_ne {package : String} (hTop : package ≠ "")
    (h : package.toList.head? ≠ some '.') : (segments package).head? ≠ some "" := by
  obtain ⟨first, rest, hSegments, hFirst⟩ := exists_segments_cons hTop h
  rw [hSegments, List.head?_cons]
  exact fun hEmpty => hFirst (Option.some.inj hEmpty)

/-- A name without the empty segments at its front begins with no dot. -/
theorem anchored_segments_head?_ne (package : String) :
    (anchored (segments package)).toList.head? ≠ some '.' := by
  obtain ⟨-, hEmpty⟩ | ⟨first, hMem, -, -, hHead⟩ := anchored_cases (segments package)
  · rw [hEmpty]
    nofun
  · rw [hHead]
    exact fun hDot => dot_not_mem_segment hMem (List.mem_of_mem_head? hDot)

theorem anchored_segments_eq_iff (package : String) :
    anchored (segments package) = package ↔ package.toList.head? ≠ some '.' := by
  constructor
  · intro hSame
    rw [← hSame]
    exact anchored_segments_head?_ne package
  · intro hDot
    by_cases hTop : package = ""
    · rw [hTop]
      rfl
    · rw [anchored_of_head (segments_head?_ne hTop hDot), intercalate_segments]

theorem packageLadder_nodup_iff (package : String) :
    (packageLadder package).Nodup ↔ package.toList.head? ≠ some '.' := by
  refine ⟨fun hNodup hDot => ?_, packageLadder_nodup⟩
  obtain ⟨cs, hChars⟩ := List.head?_eq_some_iff.mp hDot
  have hTop : package ≠ "" := by
    rintro rfl
    cases hDot
  -- the empty segment before the first dot makes a second step at the top level
  have hSegments : segments package = "" :: segments (String.ofList cs) := by
    rw [segments, hChars, List.splitOn_cons_eq_if_modifyHead, if_pos (by simp), List.map_cons,
      segments, String.toList_ofList]
  rw [packageLadder, if_neg hTop, hSegments, ladderFrom, if_pos rfl] at hNodup
  exact (List.nodup_cons.mp hNodup).1 List.mem_cons_self

theorem packageLadder_eq_fullLadder {package : String} (h : package.toList.head? ≠ some '.') :
    packageLadder package = fullLadder package := by
  rw [packageLadder_eq, fullLadder]
  split
  · rfl
  · rename_i hTop
    refine List.map_congr_left fun names hNames => anchored_of_head fun hHead => ?_
    -- what begins the first segments also begins all of them
    obtain ⟨rest, hRest⟩ := (List.mem_inits names _).mp hNames
    apply segments_head?_ne hTop h
    rw [← hRest, List.head?_append, hHead, Option.some_or]

theorem fullLadder_getLast? (package : String) : (fullLadder package).getLast? = some package := by
  unfold fullLadder
  split
  · rename_i hTop
    rw [hTop]
    rfl
  · rw [List.getLast?_map, getLast?_inits, Option.map_some, intercalate_segments]

/-- The ladder of a package puts together its first segments, from none to all, without the empty
ones at the front. Each of its names begins with the one before. It is the full ladder just when the
package begins with no dot; just then its names are distinct, and just then the last one is the
package. -/
theorem packageLadder_full_iff (package : String) :
    packageLadder package =
        (if package = "" then [""] else (segments package).inits.map anchored) ∧
      (packageLadder package).IsChain (fun p q => p.toList <+: q.toList) ∧
      (packageLadder package = fullLadder package ↔ package.toList.head? ≠ some '.') ∧
      ((packageLadder package).Nodup ↔ package.toList.head? ≠ some '.') ∧
      ((packageLadder package).getLast? = some package ↔ package.toList.head? ≠ some '.') := by
  have hLast : (packageLadder package).getLast? = some package ↔
      package.toList.head? ≠ some '.' := by
    rw [packageLadder_getLast?, Option.some.injEq, anchored_segments_eq_iff]
  refine ⟨packageLadder_eq package, packageLadder_isChain_prefix package, ⟨fun hFull => ?_, ?_⟩,
    packageLadder_nodup_iff package, hLast⟩
  · rw [← hLast, hFull, fullLadder_getLast?]
  · exact packageLadder_eq_fullLadder

/-- A package whose first segment is empty has a ladder that does not lead down to it. -/
theorem packageLadder_below_empty_segment :
    fullLadder ".a" = ["", "", ".a"] ∧ packageLadder ".a" = ["", "", "a"] ∧
      packageLadder ".a" ≠ fullLadder ".a" := by
  decide

end Heritage
