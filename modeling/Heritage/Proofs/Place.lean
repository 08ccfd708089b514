import Heritage.Walk
import Mathlib.Data.List.Chain
import Mathlib.Data.List.Nodup
import Mathlib.Data.Prod.Lex

/-!
# What stands above a place

Which places stand above a place is the same in all chains. A package stands below what its name
shows before the last dot, a type below the types before it in its lineage, and the first type of a
lineage below the package. `Place.parent` says which place is right above.

* `Linked` lists of places go down step by step. A place may be repeated, which happens only at the
  top level: a leading dot of a package adds nothing to the ladder;
* `Linked.pairwise`: what every place hands up to its parent, it hands up to all earlier places;
* `Linked.not_mem_of_parent`, `Linked.getLast?_of_mem`: going down never comes back to an earlier
  place, so a place that comes again comes right after itself;
* `packageLadder_linked`, `typePlaces_linked`: the ladder of a package and the types of a lineage
  are linked.
-/

namespace Heritage

/-! ## Names of packages -/

theorem dot_not_mem_of_mem_splitOn {cs piece : List Char} (h : piece ∈ cs.splitOn '.') :
    '.' ∉ piece := by
  induction cs generalizing piece with
  | nil =>
    have : piece = [] := by simpa [List.splitOn_eq_splitOnP] using h
    simp [this]
  | cons c cs ih =>
    rw [List.splitOn_cons_eq_if_modifyHead] at h
    by_cases hc : (c == '.') = true
    · rw [if_pos hc] at h
      rcases List.mem_cons.mp h with rfl | hRest
      · simp
      · exact ih hRest
    · rw [if_neg hc] at h
      obtain ⟨first, rest, hSplit⟩ := List.exists_cons_of_ne_nil (List.splitOn_ne_nil '.' cs)
      rw [hSplit, List.modifyHead_cons] at h
      rw [hSplit] at ih
      rcases List.mem_cons.mp h with rfl | hRest
      · have hFirst : '.' ∉ first := ih List.mem_cons_self
        have hne : '.' ≠ c := fun he => hc (by simp [← he])
        simp [hne, hFirst]
      · exact ih (List.mem_cons_of_mem first hRest)

theorem dot_not_mem_segment {name segment : String} (h : segment ∈ segments name) :
    '.' ∉ segment.toList := by
  obtain ⟨piece, hPiece, rfl⟩ := List.mem_map.mp h
  simpa using dot_not_mem_of_mem_splitOn hPiece

/-- A name that begins with no dot has a first segment that is not empty. -/
theorem exists_segments_cons {name : String} (hTop : name ≠ "")
    (hDot : name.toList.head? ≠ some '.') :
    ∃ first rest, segments name = first :: rest ∧ first ≠ "" := by
  obtain ⟨c, cs, hChars⟩ := List.exists_cons_of_ne_nil (mt String.toList_eq_nil_iff.mp hTop)
  have hc : ¬ (c == '.') = true := by
    intro hc
    apply hDot
    rw [hChars, List.head?_cons, eq_of_beq hc]
  obtain ⟨first, rest, hSplit⟩ := List.exists_cons_of_ne_nil (List.splitOn_ne_nil '.' cs)
  refine ⟨String.ofList (c :: first), rest.map String.ofList, ?_, ?_⟩
  · rw [segments, hChars, List.splitOn_cons_eq_if_modifyHead, if_neg hc, hSplit,
      List.modifyHead_cons, List.map_cons]
  · intro hEmpty
    have hNone := congrArg String.toList hEmpty
    simp at hNone

theorem packageOfName_append (current : String) {segment : String}
    (h : '.' ∉ segment.toList) : packageOfName (current ++ "." ++ segment) = current := by
  have hChars : (current ++ "." ++ segment).toList = current.toList ++ '.' :: segment.toList := by
    simp
  unfold packageOfName
  rw [hChars, List.splitOn_append_cons_self, List.splitOn_eq_singleton h, List.dropLast_concat,
    List.intercalate_splitOn, String.ofList_toList]

theorem below_ne_top (current segment : String) : current ++ "." ++ segment ≠ "" := by
  intro hEmpty
  have hChars := congrArg String.toList hEmpty
  simp at hChars

theorem below_ne (current segment : String) : current ++ "." ++ segment ≠ current := by
  intro hSame
  have hLength := congrArg String.length hSame
  simp only [String.length_append] at hLength
  have hDot : ".".length = 1 := rfl
  omega

theorem packageOfName_of_not_mem {name : String} (h : '.' ∉ name.toList) :
    packageOfName name = "" := by
  unfold packageOfName
  rw [List.splitOn_eq_singleton h]
  rfl

/-- A name has one segment more than the package that it shows, unless that is the top level. -/
theorem segments_packageOfName {name : String} (h : packageOfName name ≠ "") :
    segments (packageOfName name) = (segments name).dropLast := by
  have hPieces : (name.toList.splitOn '.').dropLast ≠ [] := by
    intro hNil
    apply h
    rw [packageOfName, hNil]
    rfl
  have hDots : ∀ piece ∈ (name.toList.splitOn '.').dropLast, '.' ∉ piece := fun piece hp =>
    dot_not_mem_of_mem_splitOn ((List.dropLast_sublist _).subset hp)
  rw [segments, packageOfName, String.toList_ofList, List.splitOn_intercalate '.' hDots hPieces,
    segments, List.map_dropLast]

/-! ## What stands above a place -/

/-- The place that the names of a lineage lead to in the chains of a package. -/
def Place.downTo (base : String) : List String → Place
  | [] => .package ((packageLadder base).getLastD "")
  | name :: rest => .type base (name :: rest)

/-- The place right above a place. -/
def Place.parent : Place → Option Place
  | .defaults => none
  | .package name => some (if name = "" then .defaults else .package (packageOfName name))
  | .type base lineage => some (.downTo base lineage.dropLast)

/-- How far down a place is: types are below packages, and packages below the defaults. -/
def Place.rank : Place → ℕ ×ₗ ℕ
  | .defaults => toLex (0, 0)
  | .package name => toLex (1, if name = "" then 0 else (segments name).length)
  | .type _ lineage => toLex (2, lineage.length)

theorem Place.rank_package_parent {name : String} (h : name ≠ "") :
    (Place.package (packageOfName name)).rank < (Place.package name).rank := by
  have hSegments : segments name ≠ [] := by simp [segments]
  have hPos : 0 < (segments name).length := List.length_pos_iff.mpr hSegments
  rw [Place.rank, Place.rank, Prod.Lex.toLex_lt_toLex]
  refine Or.inr ⟨rfl, ?_⟩
  rw [if_neg h]
  split
  · exact hPos
  · rename_i hParent
    rw [segments_packageOfName hParent, List.length_dropLast]
    omega

theorem Place.rank_parent {place above : Place} (h : place.parent = some above) :
    above.rank < place.rank := by
  cases place with
  | defaults => cases h
  | package name =>
    obtain rfl := Option.some.inj h
    by_cases hName : name = ""
    · rw [if_pos hName, Place.rank, Place.rank, Prod.Lex.toLex_lt_toLex]
      exact Or.inl Nat.zero_lt_one
    · rw [if_neg hName]
      exact Place.rank_package_parent hName
  | type package lineage =>
    obtain rfl := Option.some.inj h
    cases hAbove : lineage.dropLast with
    | nil =>
      rw [Place.downTo, Place.rank, Place.rank, Prod.Lex.toLex_lt_toLex]
      exact Or.inl (Nat.lt_succ_self 1)
    | cons name rest =>
      have hLength := congrArg List.length hAbove
      simp only [List.length_dropLast, List.length_cons] at hLength
      rw [Place.downTo, Place.rank, Place.rank, Prod.Lex.toLex_lt_toLex]
      exact Or.inr ⟨rfl, by simp only [List.length_cons]; omega⟩

/-- Each of the places repeats the one before it or stands right below it; `prior` is the place
before the first one, if there is any. -/
def Linked : Option Place → List Place → Prop
  | _, [] => True
  | prior, place :: rest => (some place = prior ∨ place.parent = prior) ∧ Linked (some place) rest

theorem getLast?_cons_or (place : Place) (rest : List Place) (prior : Option Place) :
    (place :: rest).getLast?.or prior = rest.getLast?.or (some place) := by
  cases hRest : rest.getLast? <;> simp [List.getLast?_cons, hRest]

theorem linked_append {prior : Option Place} {front back : List Place} :
    Linked prior (front ++ back) ↔
      Linked prior front ∧ Linked (front.getLast?.or prior) back := by
  induction front generalizing prior with
  | nil => simp [Linked]
  | cons place rest ih =>
    rw [List.cons_append, Linked, Linked, ih, getLast?_cons_or, and_assoc]

/-- What a place hands up to the place above it, every place of a linked list hands up to the place
before the list. -/
theorem Linked.hands_up {P : Place → Prop} (hP : ∀ place above, place.parent = some above →
    P place → P above) {prior : Place} {places : List Place} (h : Linked (some prior) places) :
    ∀ place ∈ places, P place → P prior := by
  induction places generalizing prior with
  | nil => simp
  | cons first rest ih =>
    obtain ⟨hFirst, hRest⟩ := h
    have hStep : P first → P prior := by
      rcases hFirst with hSame | hParent
      · obtain rfl := Option.some.inj hSame
        exact id
      · exact hP first prior hParent
    intro place hMem hPlace
    rcases List.mem_cons.mp hMem with rfl | hMem
    · exact hStep hPlace
    · exact hStep (ih hRest place hMem hPlace)

theorem Linked.pairwise {P : Place → Prop} (hP : ∀ place above, place.parent = some above →
    P place → P above) {prior : Option Place} {places : List Place} (h : Linked prior places) :
    places.Pairwise fun earlier later => P later → P earlier := by
  induction places generalizing prior with
  | nil => exact List.Pairwise.nil
  | cons first rest ih => exact List.Pairwise.cons (h.2.hands_up hP) (ih h.2)

theorem Linked.rank_le {prior : Place} {places : List Place} (h : Linked (some prior) places) :
    ∀ place ∈ places, prior.rank ≤ place.rank := by
  intro place hMem
  exact h.hands_up (P := fun other => other.rank ≤ place.rank)
    (fun _ _ hParent hLe => (Place.rank_parent hParent).le.trans hLe) place hMem le_rfl

/-- A place that stands below the last one of a linked list has not come before. -/
theorem Linked.not_mem_of_parent {prior : Option Place} {places : List Place} {last place : Place}
    (h : Linked prior places) (hLast : places.getLast? = some last)
    (hParent : place.parent = some last) : place ∉ places := by
  intro hMem
  obtain ⟨front, back, rfl⟩ := List.append_of_mem hMem
  have hBack : Linked (some place) back := (linked_append.mp h).2.2
  have hLe : place.rank ≤ last.rank := by
    rcases List.eq_nil_or_concat back with rfl | ⟨middle, end', rfl⟩
    · have : place = last := by simpa using hLast
      rw [this]
    · have hEnd : end' = last := by
        rw [List.concat_eq_append, ← List.cons_append, ← List.append_assoc,
          List.getLast?_concat] at hLast
        exact Option.some.inj hLast
      exact hBack.rank_le last (by simp [hEnd])
  exact absurd (Place.rank_parent hParent) hLe.not_gt

/-- A place that comes again comes right after itself. -/
theorem Linked.getLast?_of_mem {prior : Option Place} {places : List Place} {place : Place}
    (h : Linked prior (places ++ [place])) (hMem : place ∈ places) :
    places.getLast? = some place := by
  obtain ⟨hPlaces, hPlace, -⟩ := linked_append.mp h
  cases hLast : places.getLast? with
  | none =>
    rw [List.getLast?_eq_none_iff.mp hLast] at hMem
    cases hMem
  | some last =>
    rw [hLast, Option.some_or] at hPlace
    rcases hPlace with hSame | hParent
    · exact hSame.symm
    · exact absurd hMem (hPlaces.not_mem_of_parent hLast hParent)

/-- A linked list without a repetition right after a place has no repetition at all. -/
theorem Linked.nodup {prior : Option Place} {places : List Place} (h : Linked prior places)
    (hne : places.IsChain (· ≠ ·)) : places.Nodup := by
  induction places generalizing prior with
  | nil => exact List.nodup_nil
  | cons first rest ih =>
    refine List.nodup_cons.mpr ⟨?_, ih h.2 hne.tail⟩
    cases rest with
    | nil => simp
    | cons second rest =>
      have hParent : second.parent = some first := by
        rcases h.2.1 with hSame | hParent
        · exact absurd (Option.some.inj hSame).symm (List.isChain_cons_cons.mp hne).1
        · exact hParent
      intro hMem
      have hLe : second.rank ≤ first.rank := by
        rcases List.mem_cons.mp hMem with hSame | hMem
        · rw [hSame]
        · exact h.2.2.rank_le first hMem
      exact absurd (Place.rank_parent hParent) hLe.not_gt

/-! ## The places of a chain are linked -/

theorem ladderFrom_linked {current : String} {names : List String}
    (h : ∀ segment ∈ names, '.' ∉ segment.toList) :
    Linked (some (.package current)) ((ladderFrom current names).map .package) := by
  induction names generalizing current with
  | nil => trivial
  | cons segment rest ih =>
    have hSegment : '.' ∉ segment.toList := h segment List.mem_cons_self
    have hRest := fun s hs => h s (List.mem_cons_of_mem segment hs)
    rw [ladderFrom, List.map_cons]
    refine ⟨?_, ih hRest⟩
    by_cases hTop : current = ""
    · subst hTop
      by_cases hEmpty : segment = ""
      · exact Or.inl (by rw [if_pos rfl, hEmpty])
      · right
        rw [if_pos rfl, Place.parent, if_neg hEmpty, packageOfName_of_not_mem hSegment]
    · right
      rw [if_neg hTop, Place.parent, if_neg (below_ne_top current segment),
        packageOfName_append current hSegment]

theorem packageLadder_linked (package : String) :
    Linked (some .defaults) ((packageLadder package).map .package) := by
  have hTop : (Place.package "").parent = some .defaults := rfl
  unfold packageLadder
  split
  · exact ⟨Or.inr hTop, trivial⟩
  · exact ⟨Or.inr hTop, ladderFrom_linked fun _ => dot_not_mem_segment⟩

theorem packageLadder_ne_nil (package : String) : packageLadder package ≠ [] := by
  unfold packageLadder
  split <;> simp

theorem ladderFrom_ne {current : String} (h : current ≠ "") (names : List String) :
    (current :: ladderFrom current names).IsChain (· ≠ ·) := by
  induction names generalizing current with
  | nil => exact List.isChain_singleton current
  | cons segment rest ih =>
    rw [ladderFrom, if_neg h]
    exact List.IsChain.cons_cons (below_ne current segment).symm (ih (below_ne_top current segment))

/-- Only a leading dot makes a ladder repeat a package. -/
theorem packageLadder_nodup {package : String} (h : package.toList.head? ≠ some '.') :
    (packageLadder package).Nodup := by
  have hPlaces : ((packageLadder package).map Place.package).Nodup := by
    refine (packageLadder_linked package).nodup ?_
    refine List.isChain_map_of_isChain (R := (· ≠ ·)) Place.package ?_ ?_
    · intro a b hab hEq
      exact hab (Place.package.inj hEq)
    · unfold packageLadder
      split
      · exact List.isChain_singleton ""
      · rename_i hTop
        obtain ⟨first, rest, hSegments, hFirst⟩ := exists_segments_cons hTop h
        rw [hSegments, ladderFrom, if_pos rfl]
        exact List.IsChain.cons_cons hFirst.symm (ladderFrom_ne hFirst _)
  exact List.Nodup.of_map _ hPlaces

theorem Place.downTo_concat (package : String) (above : List String) (name : String) :
    Place.downTo package (above ++ [name]) = .type package (above ++ [name]) := by
  cases above <;> rfl

theorem typePlaces_linked (package : String) (above : List String) (types : List DeclaredType) :
    Linked (some (.downTo package above)) ((typePlaces package above types).map Prod.fst) := by
  induction types generalizing above with
  | nil => trivial
  | cons declared rest ih =>
    refine ⟨Or.inr ?_, ?_⟩
    · rw [Place.parent, List.dropLast_concat]
    · rw [← Place.downTo_concat]
      exact ih (above ++ [declared.name])

end Heritage
