import Heritage.Proofs.Uncached

/-!
# Where packages keep their property files

The ladder of a package and the path of its property file are both made from the segments of its
name. An empty segment behind a filled one makes a step of the ladder, yet it is no component of the
path, so the package above has the same property file.

* `Resource.locate_pathOf_eq_iff`: packages share a property file just when they have the same
  filled segments;
* `DeclaredSource.resources_nodup_iff`: the packages of a chain share none just when empty segments
  come before all filled ones;
* `property_files_read_once_iff`: the same of a resolution, which takes in the property file of
  every distinct package of the chain.

File names begin without a slash here: all packages share a file whose name begins with one.
-/

namespace Heritage

theorem subset_of_mem_splitOn {cs piece : List Char} (h : piece ∈ cs.splitOn '.') : piece ⊆ cs := by
  induction cs generalizing piece with
  | nil =>
    have hNil : piece = [] := by simpa [List.splitOn_eq_splitOnP] using h
    simp [hNil]
  | cons c cs ih =>
    obtain ⟨first, rest, hSplit⟩ := List.exists_cons_of_ne_nil (List.splitOn_ne_nil '.' cs)
    rw [List.splitOn_cons_eq_if_modifyHead, hSplit] at h
    rw [hSplit] at ih
    split at h
    · rcases List.mem_cons.mp h with rfl | hRest
      · exact List.nil_subset _
      · exact List.subset_cons_of_subset c (ih hRest)
    · rw [List.modifyHead_cons] at h
      rcases List.mem_cons.mp h with rfl | hRest
      · exact List.cons_subset_cons c (ih List.mem_cons_self)
      · exact List.subset_cons_of_subset c (ih (List.mem_cons_of_mem first hRest))

theorem segment_subset {name segment : String} (h : segment ∈ segments name) :
    segment.toList ⊆ name.toList := by
  obtain ⟨piece, hPiece, rfl⟩ := List.mem_map.mp h
  rw [String.toList_ofList]
  exact subset_of_mem_splitOn hPiece

theorem slash_not_mem_segment {name segment : String} (hName : '/' ∉ name.toList)
    (h : segment ∈ segments name) : '/' ∉ segment.toList :=
  fun hSlash => hName (segment_subset h hSlash)

namespace Resource

/-! ## Components of paths -/

theorem components_append_slash (a b : String) :
    components (a ++ "/" ++ b) = components a ++ components b := by
  have hChars : (a ++ "/" ++ b).toList = a.toList ++ '/' :: b.toList := by simp
  rw [components, hChars, List.splitOn_append_cons_self, List.filter_append, List.map_append]
  rfl

@[simp] theorem components_empty : components "" = [] := rfl

theorem components_push {next : String} (h : isAbsolute next = false) (path : String) :
    components (push path next) = components path ++ components next := by
  rw [push, if_neg (by simp [h])]
  split
  · rename_i hEnd
    have hEnd : path = "" ∨ path.toList.getLast? = some '/' := by simpa using hEnd
    rcases hEnd with rfl | hSlash
    · simp
    · -- the slash that is there already does what one between the paths would do
      obtain ⟨front, hFront⟩ := List.getLast?_eq_some_iff.mp hSlash
      obtain rfl : path = String.ofList front ++ "/" ++ "" := by
        rw [← String.toList_inj, hFront]
        simp
      have hKept := components_append_slash (String.ofList front) ""
      rw [hKept, components_empty, List.append_nil, String.append_empty, components_append_slash]
  · exact components_append_slash path next

theorem isAbsolute_push {next : String} (h : isAbsolute next = false) (path : String) :
    isAbsolute (push path next) = isAbsolute path := by
  rw [push, if_neg (by simp [h])]
  cases hChars : path.toList with
  | nil =>
    obtain rfl := String.toList_eq_nil_iff.mp hChars
    simpa [isAbsolute] using h
  | cons c cs => split <;> simp [isAbsolute, hChars]

/-- A name that a path has as one component. -/
def IsComponent (name : String) : Prop :=
  name ≠ "" ∧ '/' ∉ name.toList

theorem IsComponent.isAbsolute {name : String} (h : IsComponent name) :
    isAbsolute name = false := by
  refine decide_eq_false fun hHead => h.2 ?_
  exact List.mem_of_mem_head? hHead

theorem IsComponent.components {name : String} (h : IsComponent name) :
    components name = [name] := by
  have hFilled : name.toList ≠ [] := fun hNil => h.1 (String.toList_eq_nil_iff.mp hNil)
  rw [Resource.components, List.splitOn_eq_singleton h.2]
  simp [hFilled]

theorem components_foldl_push {names : List String} (h : ∀ name ∈ names, IsComponent name)
    (path : String) :
    components (names.foldl push path) = components path ++ names ∧
      isAbsolute (names.foldl push path) = isAbsolute path := by
  induction names generalizing path with
  | nil => simp
  | cons name rest ih =>
    have hName := h name List.mem_cons_self
    obtain ⟨hComponents, hAbsolute⟩ := ih (fun s hs => h s (List.mem_cons_of_mem name hs))
      (push path name)
    rw [List.foldl_cons, hComponents, hAbsolute, components_push hName.isAbsolute,
      isAbsolute_push hName.isAbsolute, hName.components]
    simp

/-! ## Locations of property files -/

theorem locate_of_components_cons {path first : String} {rest : List String}
    (hPath : isAbsolute path = false) (h : components path = first :: rest) :
    locate path = ⟨false, first :: rest.filter (· ≠ ".")⟩ := by
  simp [locate, h, hPath]

/-- The segments of a package that are not empty. -/
def filled (package : String) : List String :=
  (segments package).filter (· ≠ "")

theorem filled_ne_dot {package name : String} (h : name ∈ filled package) : name ≠ "." := by
  rintro rfl
  exact dot_not_mem_segment (List.mem_of_mem_filter h) (by decide)

theorem components_pathOf {fileName package : String} (hFile : isAbsolute fileName = false)
    (h : '/' ∉ package.toList) :
    components (pathOf fileName package) = filled package ++ components fileName ∧
      isAbsolute (pathOf fileName package) = false := by
  have hNames : ∀ name ∈ filled package, IsComponent name := by
    intro name hMem
    obtain ⟨hSegment, hFilled⟩ := List.mem_filter.mp hMem
    exact ⟨of_decide_eq_true hFilled, slash_not_mem_segment h hSegment⟩
  obtain ⟨hComponents, hAbsolute⟩ := components_foldl_push hNames ""
  constructor
  · rw [pathOf, components_push hFile]
    exact congrArg (· ++ components fileName) hComponents
  · rw [pathOf, isAbsolute_push hFile]
    exact hAbsolute

theorem pathOf_of_filled_nil {fileName package : String} (hFile : isAbsolute fileName = false)
    (h : filled package = []) : pathOf fileName package = fileName := by
  have hFolders : ((segments package).filter (· ≠ "")).foldl push "" = "" := by
    rw [← filled, h]
    rfl
  rw [pathOf, hFolders]
  simp [push, hFile]

theorem locate_pathOf_of_filled {fileName package : String} (hFile : isAbsolute fileName = false)
    (h : '/' ∉ package.toList) (hFilled : filled package ≠ []) :
    locate (pathOf fileName package) =
      ⟨false, filled package ++ (components fileName).filter (· ≠ ".")⟩ := by
  obtain ⟨hComponents, hAbsolute⟩ := components_pathOf hFile h
  obtain ⟨name, rest, hNames⟩ := List.exists_cons_of_ne_nil hFilled
  have hRest : rest.filter (· ≠ ".") = rest := by
    refine List.filter_eq_self.mpr fun s hs => decide_eq_true ?_
    exact filled_ne_dot (hNames ▸ List.mem_cons_of_mem name hs)
  rw [hNames, List.cons_append] at hComponents
  rw [locate_of_components_cons hAbsolute hComponents, List.filter_append, hRest, hNames,
    List.cons_append]

/-- No file has the location that it would have behind a folder whose name is no dot. -/
theorem locate_ne_of_folder {fileName name : String} (hFile : isAbsolute fileName = false)
    (hName : name ≠ ".") (rest : List String) :
    locate fileName ≠ ⟨false, name :: rest ++ (components fileName).filter (· ≠ ".")⟩ := by
  intro hSame
  cases hComponents : components fileName with
  | nil =>
    rw [locate, hComponents] at hSame
    cases (Location.mk.inj hSame).2
  | cons first more =>
    rw [locate_of_components_cons hFile hComponents, hComponents] at hSame
    obtain ⟨hFirst, hMore⟩ := List.cons.inj (Location.mk.inj hSame).2
    have hKept : first ≠ "." := hFirst ▸ hName
    have hLength := congrArg List.length hMore
    simp [hKept] at hLength
    omega

theorem locate_pathOf_ne {fileName package : String} (hFile : isAbsolute fileName = false)
    (h : '/' ∉ package.toList) (hFilled : filled package ≠ []) :
    locate (pathOf fileName package) ≠ locate fileName := by
  obtain ⟨name, rest, hNames⟩ := List.exists_cons_of_ne_nil hFilled
  have hName : name ≠ "." := filled_ne_dot (hNames ▸ List.mem_cons_self)
  rw [locate_pathOf_of_filled hFile h hFilled, hNames]
  exact (locate_ne_of_folder hFile hName rest).symm

theorem locate_pathOf_eq_iff {fileName p q : String} (hFile : isAbsolute fileName = false)
    (hp : '/' ∉ p.toList) (hq : '/' ∉ q.toList) :
    locate (pathOf fileName p) = locate (pathOf fileName q) ↔ filled p = filled q := by
  by_cases hP : filled p = []
  · rw [pathOf_of_filled_nil hFile hP, hP]
    by_cases hQ : filled q = []
    · rw [pathOf_of_filled_nil hFile hQ, hQ]
      exact iff_of_true rfl rfl
    · exact iff_of_false (locate_pathOf_ne hFile hq hQ).symm (Ne.symm hQ)
  · by_cases hQ : filled q = []
    · rw [pathOf_of_filled_nil hFile hQ, hQ]
      exact iff_of_false (locate_pathOf_ne hFile hp hP) hP
    · rw [locate_pathOf_of_filled hFile hp hP, locate_pathOf_of_filled hFile hq hQ]
      simp

/-! ## Property files of a ladder -/

/-- The packages of a list are told apart by their filled segments. -/
def Apart (packages : List String) : Prop :=
  ∀ p ∈ packages, ∀ q ∈ packages, filled p = filled q → p = q

theorem Apart.mono {packages fewer : List String} (h : Apart packages) (hFewer : fewer ⊆ packages) :
    Apart fewer :=
  fun p hp q hq => h p (hFewer hp) q (hFewer hq)

/-- What a ladder puts behind `current` for the next segment. -/
theorem filled_next {segment : String} (h : '.' ∉ segment.toList) (current : String) :
    filled (if current = "" then segment else current ++ "." ++ segment) =
      filled current ++ [segment].filter (· ≠ "") := by
  have hSegment : segments segment = [segment] := by
    rw [segments, List.splitOn_eq_singleton h]
    simp
  split
  · rename_i hTop
    rw [filled, hSegment, hTop]
    rfl
  · have hChars : (current ++ "." ++ segment).toList = current.toList ++ '.' :: segment.toList := by
      simp
    rw [← hSegment, filled, filled, ← List.filter_append]
    congr 1
    rw [segments, hChars, List.splitOn_append_cons_self, List.map_append, segments, segments]

theorem ladderFrom_pairwise {current : String} {names : List String}
    (hDots : ∀ segment ∈ names, '.' ∉ segment.toList) (hFilled : "" ∉ names) :
    (current :: ladderFrom current names).Pairwise
      fun p q => (filled p).length < (filled q).length := by
  rw [← List.isChain_iff_pairwise]
  induction names generalizing current with
  | nil => exact List.isChain_singleton current
  | cons segment rest ih =>
    have hSegment : segment ≠ "" := fun hEmpty => hFilled (hEmpty ▸ List.mem_cons_self)
    rw [ladderFrom]
    refine List.IsChain.cons_cons ?_ (ih (fun s hs => hDots s (List.mem_cons_of_mem segment hs))
      fun hMem => hFilled (List.mem_cons_of_mem segment hMem))
    rw [filled_next (hDots segment List.mem_cons_self)]
    simp [hSegment]

theorem apart_of_pairwise {packages : List String}
    (h : packages.Pairwise fun p q => (filled p).length < (filled q).length) : Apart packages := by
  have hLengths : (packages.map fun p => (filled p).length).Nodup :=
    List.pairwise_map.mpr (h.imp Nat.ne_of_lt)
  intro p hp q hq hSame
  exact List.inj_on_of_nodup_map hLengths hp hq (congrArg List.length hSame)

theorem ladderFrom_apart_iff {current : String} (hCurrent : current ≠ "") {names : List String}
    (hDots : ∀ segment ∈ names, '.' ∉ segment.toList) :
    Apart (current :: ladderFrom current names) ↔ "" ∉ names := by
  refine ⟨fun h => ?_, fun h => apart_of_pairwise (ladderFrom_pairwise hDots h)⟩
  induction names generalizing current with
  | nil => exact List.not_mem_nil
  | cons segment rest ih =>
    have hFilled := filled_next (hDots segment List.mem_cons_self) current
    rw [ladderFrom, if_neg hCurrent] at h
    rw [if_neg hCurrent] at hFilled
    have hSegment : segment ≠ "" := by
      rintro rfl
      -- the next package would be another one with the same filled segments
      have hSame : filled (current ++ "." ++ "") = filled current := by
        rw [hFilled]
        simp
      have hStays : current ++ "." ++ "" = current :=
        h _ (List.mem_cons_of_mem _ List.mem_cons_self) _ List.mem_cons_self hSame
      exact below_ne current "" hStays
    have hRest : "" ∉ rest :=
      ih (below_ne_top current segment) (fun s hs => hDots s (List.mem_cons_of_mem segment hs))
        (h.mono (List.subset_cons_self _ _))
    exact List.not_mem_cons_of_ne_of_not_mem hSegment.symm hRest

/-- Leading empty segments leave a ladder at the top level. -/
theorem ladderFrom_top_apart_iff {names : List String}
    (hDots : ∀ segment ∈ names, '.' ∉ segment.toList) :
    Apart ("" :: ladderFrom "" names) ↔ "" ∉ names.dropWhile (· = "") := by
  induction names with
  | nil => exact iff_of_true (apart_of_pairwise (List.pairwise_singleton _ _)) List.not_mem_nil
  | cons segment rest ih =>
    have hRest := fun s hs => hDots s (List.mem_cons_of_mem segment hs)
    by_cases hSegment : segment = ""
    · subst hSegment
      rw [List.dropWhile_cons_of_pos (by simp), ← ih hRest, ladderFrom, if_pos rfl]
      constructor
      · exact fun h => h.mono (List.subset_cons_self _ _)
      · exact fun h => h.mono (List.cons_subset.mpr ⟨List.mem_cons_self, List.Subset.refl _⟩)
    · rw [List.dropWhile_cons_of_neg (by simpa using hSegment)]
      constructor
      · intro h
        rw [ladderFrom, if_pos rfl] at h
        have hBehind : "" ∉ rest :=
          (ladderFrom_apart_iff hSegment hRest).mp (h.mono (List.subset_cons_self _ _))
        exact List.not_mem_cons_of_ne_of_not_mem (Ne.symm hSegment) hBehind
      · exact fun h => apart_of_pairwise (ladderFrom_pairwise hDots h)

theorem packageLadder_apart_iff (package : String) :
    Apart (packageLadder package) ↔ "" ∉ (segments package).dropWhile (· = "") := by
  unfold packageLadder
  split
  · rename_i hTop
    rw [hTop]
    exact iff_of_true (apart_of_pairwise (List.pairwise_singleton _ _)) (by decide)
  · exact ladderFrom_top_apart_iff fun _ => dot_not_mem_segment

end Resource

theorem slash_not_mem_ladderFrom {current : String} {names : List String}
    (hCurrent : '/' ∉ current.toList) (hNames : ∀ segment ∈ names, '/' ∉ segment.toList) :
    ∀ package ∈ ladderFrom current names, '/' ∉ package.toList := by
  induction names generalizing current with
  | nil => simp [ladderFrom]
  | cons segment rest ih =>
    have hSegment := hNames segment List.mem_cons_self
    have hNext : '/' ∉ (if current = "" then segment else current ++ "." ++ segment).toList := by
      split
      · exact hSegment
      · simp [hCurrent, hSegment]
    intro package hMem
    rcases List.mem_cons.mp hMem with rfl | hMem
    · exact hNext
    · exact ih hNext (fun s hs => hNames s (List.mem_cons_of_mem segment hs)) package hMem

theorem slash_not_mem_packageLadder {package : String} (h : '/' ∉ package.toList) :
    ∀ above ∈ packageLadder package, '/' ∉ above.toList := by
  unfold packageLadder
  split
  · simp
  · intro above hMem
    rcases List.mem_cons.mp hMem with rfl | hMem
    · simp
    · exact slash_not_mem_ladderFrom (by simp) (fun _ => slash_not_mem_segment h) above hMem

/-! ## Property files of a resolution -/

theorem nodup_filterMap_iff {α β : Type} {f : α → Option β} {l : List α} (hl : l.Nodup) :
    (l.filterMap f).Nodup ↔ ∀ a ∈ l, ∀ b ∈ l, ∀ y, f a = some y → f b = some y → a = b := by
  rw [List.Nodup, List.pairwise_filterMap]
  constructor
  · intro h a ha b hb y hA hB
    by_contra hne
    have hSymm : Std.Symm fun a b => ∀ y, f a = some y → ∀ z, f b = some z → y ≠ z :=
      ⟨fun a b hab y hy z hz => (hab z hz y hy).symm⟩
    exact h.forall ha hb hne y hA y hB rfl
  · intro h
    refine hl.pairwise_of_forall_ne fun a ha b hb hne y hA z hB hSame => ?_
    exact hne (h a ha b hb y hA (hSame ▸ hB))

namespace DeclaredSource

variable {F : Type} {s : DeclaredSource F}

/-- The property file that a node is asked for. -/
def resource? (s : DeclaredSource F) : Node → Option Resource.Location
  | .package name => s.properties.map fun file => Resource.locate (file.path name)
  | _ => none

theorem resource?_eq_some_iff {file : Resource.PropertyFile} (hFile : s.properties = some file)
    {node : Node} {place : Resource.Location} :
    s.resource? node = some place ↔
      ∃ package, node = .package package ∧ Resource.locate (file.path package) = place := by
  cases node <;> simp [resource?, hFile]

/-- The distinct nodes of a chain have property files of their own just when no empty segment comes
behind a filled one. -/
theorem resources_nodup_iff {file : Resource.PropertyFile} (hFile : s.properties = some file)
    (hRelative : Resource.isAbsolute file.fileName = false) {c : Chain}
    (hSlash : '/' ∉ c.package.toList) :
    (c.nodes.eraseDups.filterMap s.resource?).Nodup ↔
      "" ∉ (segments c.package).dropWhile (· = "") := by
  have hPlain := slash_not_mem_packageLadder hSlash
  have hMem : ∀ package, .package package ∈ c.nodes.eraseDups ↔ package ∈ c.packages := by
    intro package
    simp [Chain.nodes]
  rw [nodup_filterMap_iff (eraseDups_nodup c.nodes), ← Resource.packageLadder_apart_iff]
  constructor
  · intro h p hp q hq hSame
    have hPlace := (Resource.locate_pathOf_eq_iff hRelative (hPlain p hp) (hPlain q hq)).mpr hSame
    have hNode := h (.package p) ((hMem p).mpr hp) (.package q) ((hMem q).mpr hq) _
      ((resource?_eq_some_iff hFile).mpr ⟨p, rfl, hPlace⟩)
      ((resource?_eq_some_iff hFile).mpr ⟨q, rfl, rfl⟩)
    exact Node.package.inj hNode
  · intro h a ha b hb place hA hB
    obtain ⟨p, rfl, hP⟩ := (resource?_eq_some_iff hFile).mp hA
    obtain ⟨q, rfl, hQ⟩ := (resource?_eq_some_iff hFile).mp hB
    have hp := (hMem p).mp ha
    have hq := (hMem q).mp hb
    have hSame := (Resource.locate_pathOf_eq_iff hRelative (hPlain p hp) (hPlain q hq)).mp
      (hP.trans hQ.symm)
    rw [h p hp q hq hSame]

end DeclaredSource

/-- Let set-ups of the runtime be declared in property files, among others, and let what is declared
be fixed. After any events, the outcome for a target is the fold over the distinct nodes of its
chain, and these look for distinct property files just when no empty segment of the package comes
behind a filled one. -/
theorem property_files_read_once_iff (events : List (Event Kind)) {b : ResolverBuilder Kind}
    (hb : b ∈ (World.empty.run events).builders) {id : Nat} {s : DeclaredSource RuntimeSetup}
    (hr : ⟨id, .runtime, s.extractor⟩ ∈ b.registrations) {file : Resource.PropertyFile}
    (hFile : s.properties = some file) (hRelative : Resource.isAbsolute file.fileName = false)
    (hFixed : ∀ i target answers, .resolve i target answers ∈ events →
      answers ⟨id, .runtime, s.extractor⟩ = s.extractor)
    {target : Target} {c : Chain} (hc : Chain.ofTarget b.root target = .ok c)
    (hSlash : '/' ∉ c.package.toList) {answers : Answers Kind}
    (hNow : answers ⟨id, .runtime, s.extractor⟩ = s.extractor) :
    ((b.build.answering answers).resolve (World.empty.run events).cache target).outcomeOf
        Kind.runtime = some (s.extractor.foldFrom s.defaults c.nodes.eraseDups) ∧
      ((c.nodes.eraseDups.filterMap s.resource?).Nodup ↔
        "" ∉ (segments c.package).dropWhile (· = "")) := by
  constructor
  · exact World.outcomeOf_eq_fold_distinct hb hr s.extractor_byName hFixed hc hNow
  · exact DeclaredSource.resources_nodup_iff hFile hRelative hSlash

namespace Fixture

/-- A source with the property file of one package and nothing else. -/
def nightSource : DeclaredSource RuntimeSetup where
  metadata := .empty
  properties :=
    some ⟨(Resource.Store.ofList [("org/config.properties", "qualifiers: +night")]).loader,
      Resource.defaultFileName⟩
  defaults := .empty

def nightBuilder : ResolverBuilder Kind := ⟨none, [⟨0, .runtime, nightSource.extractor⟩], 1⟩

/-- A type whose package ends in an empty segment. -/
def gapTarget : Target := ⟨[.ofName "org..Leaf"], ⟨"org..Leaf", "runs"⟩⟩

def gapChain : Chain := ⟨"org..Leaf#runs", "org.", [⟨"org..Leaf", "org."⟩], ⟨"org..Leaf", "runs"⟩⟩

end Fixture

theorem property_files_read_once_of_small :
    let answers : Answers Kind := Registration.extractor
    let events : List (Event Kind) := [.start, .register 0 .runtime Fixture.nightSource.extractor]
    Fixture.nightBuilder ∈ (World.empty.run events).builders ∧
      Chain.ofTarget none Fixture.smallTarget = .ok Fixture.smallChain ∧
      '/' ∉ Fixture.smallChain.package.toList ∧
      ((Fixture.nightBuilder.build.answering answers).resolve (World.empty.run events).cache
        Fixture.smallTarget).outcomeOf Kind.runtime =
          some (Fixture.nightSource.extractor.foldFrom .empty
            Fixture.smallChain.nodes.eraseDups) ∧
      (Fixture.smallChain.nodes.eraseDups.filterMap Fixture.nightSource.resource?).Nodup := by
  intro answers events
  have hMem : Fixture.nightBuilder ∈ (World.empty.run events).builders := List.mem_cons_self
  have hSlash : '/' ∉ Fixture.smallChain.package.toList := by decide
  have hRegistered : ⟨0, .runtime, Fixture.nightSource.extractor⟩ ∈
      Fixture.nightBuilder.registrations := List.mem_cons_self
  have hNow : answers ⟨0, .runtime, Fixture.nightSource.extractor⟩ =
      Fixture.nightSource.extractor := rfl
  obtain ⟨hOutcome, hFiles⟩ := property_files_read_once_iff events hMem hRegistered rfl (by decide)
    (by simp [events]) Fixture.smallChain_ofTarget hSlash hNow
  exact ⟨hMem, Fixture.smallChain_ofTarget, hSlash, hOutcome, hFiles.mpr (by decide)⟩

theorem property_file_read_twice :
    Chain.ofTarget none Fixture.gapTarget = .ok Fixture.gapChain ∧
      Fixture.gapChain.nodes.eraseDups.filterMap Fixture.nightSource.resource? =
        [⟨false, ["config.properties"]⟩, ⟨false, ["org", "config.properties"]⟩,
          ⟨false, ["org", "config.properties"]⟩] ∧
      (Fixture.nightBuilder.build.resolve .empty Fixture.gapTarget).outcomeOf Kind.runtime =
        some (.ok ⟨some "night +night", none, .unset, .unset⟩) := by
  refine ⟨by decide, by decide, ?_⟩
  rfl

end Heritage
