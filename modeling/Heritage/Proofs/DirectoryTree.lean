import Heritage.Proofs.PropertyPath
import Heritage.Proofs.TableKeys
import Heritage.Resource.Directory

/-!
# Directories of files

A directory is filled with files one after another, and folders are made on the way. What it holds
afterwards under all names follows from the files alone, as long as none of them is below another.

* `plainPath_pathOf`: the property files of packages have paths without dots, which name what they
  show;
* `Tree.adds_addFile`: what one more file changes, and what it leaves as it was;
* `Tree.mirrors_ofList`: what the tree of some files holds under all names, beside what a store in
  memory holds of them.
-/

namespace Heritage

namespace Resource

/-! ## Plain paths -/

/-- A component that leads from a folder to something in it. -/
def IsPlain (name : String) : Prop :=
  IsComponent name ∧ name ≠ "." ∧ name ≠ ".."

instance (name : String) : Decidable (IsPlain name) :=
  inferInstanceAs (Decidable ((_ ∧ _) ∧ _ ∧ _))

/-- A relative path of plain components, as a file below a directory has it. -/
structure PlainPath (path : String) : Prop where
  relative : isAbsolute path = false
  filled : components path ≠ []
  plain : ∀ name ∈ components path, IsPlain name
  unslashed : path.toList.getLast? ≠ some '/'
  nulFree : '\x00' ∉ path.toList

theorem PlainPath.locate_eq {path : String} (h : PlainPath path) :
    locate path = ⟨false, components path⟩ := by
  obtain ⟨first, rest, hNames⟩ := List.exists_cons_of_ne_nil h.filled
  have hRest : rest.filter (· ≠ ".") = rest := by
    refine List.filter_eq_self.mpr fun name hName => decide_eq_true ?_
    have hMem : name ∈ components path := hNames ▸ List.mem_cons_of_mem first hName
    exact (h.plain name hMem).2.1
  rw [locate_of_components_cons h.relative hNames, hRest, hNames]

theorem PlainPath.ne_empty {path : String} (h : PlainPath path) : path ≠ "" := by
  rintro rfl
  exact h.filled components_empty

theorem mem_push {c : Char} {path next : String} (h : c ∈ (push path next).toList) :
    c ∈ path.toList ∨ c = '/' ∨ c ∈ next.toList := by
  unfold push at h
  split at h
  · exact .inr (.inr h)
  · split at h
    · simp only [String.toList_append, List.mem_append] at h
      tauto
    · simp only [String.toList_append, List.mem_append] at h
      rcases h with (hPath | hSlash) | hNext
      · exact .inl hPath
      · exact .inr (.inl (by simpa using hSlash))
      · exact .inr (.inr hNext)

theorem mem_foldl_push {c : Char} {names : List String} {path : String}
    (h : c ∈ (names.foldl push path).toList) :
    c ∈ path.toList ∨ c = '/' ∨ ∃ name ∈ names, c ∈ name.toList := by
  induction names generalizing path with
  | nil => exact .inl h
  | cons name rest ih =>
    rcases ih h with hPath | hSlash | ⟨other, hOther, hMem⟩
    · rcases mem_push hPath with hPath | hSlash | hName
      · exact .inl hPath
      · exact .inr (.inl hSlash)
      · exact .inr (.inr ⟨name, List.mem_cons_self, hName⟩)
    · exact .inr (.inl hSlash)
    · exact .inr (.inr ⟨other, List.mem_cons_of_mem name hOther, hMem⟩)

theorem getLast?_push {next : String} (h : next ≠ "") (path : String) :
    (push path next).toList.getLast? = next.toList.getLast? := by
  have hFilled : next.toList ≠ [] := fun hNil => h (String.toList_eq_nil_iff.mp hNil)
  unfold push
  split
  · rfl
  · split <;> rw [String.toList_append, List.getLast?_append_of_ne_nil _ hFilled]

/-- The property files of packages have plain paths. -/
theorem plainPath_pathOf {fileName package : String} (hName : IsPlain fileName)
    (hNameNul : '\x00' ∉ fileName.toList) (hSlash : '/' ∉ package.toList)
    (hNul : '\x00' ∉ package.toList) : PlainPath (pathOf fileName package) := by
  obtain ⟨hComponents, hRelative⟩ := components_pathOf hName.1.isAbsolute hSlash
  rw [hName.1.components] at hComponents
  refine ⟨hRelative, by simp [hComponents], ?_, ?_, ?_⟩
  · intro name hMem
    rw [hComponents, List.mem_append, List.mem_singleton] at hMem
    rcases hMem with hFilled | rfl
    · obtain ⟨hSegment, hNonempty⟩ := List.mem_filter.mp hFilled
      refine ⟨⟨of_decide_eq_true hNonempty, slash_not_mem_segment hSlash hSegment⟩,
        filled_ne_dot hFilled, ?_⟩
      rintro rfl
      exact dot_not_mem_segment hSegment (by decide)
    · exact hName
  · rw [pathOf, getLast?_push hName.1.1]
    exact fun hLast => hName.1.2 (List.mem_of_mem_getLast? hLast)
  · intro hMem
    rcases mem_push hMem with hFolders | hSeparator | hFile
    · rcases mem_foldl_push hFolders with hNothing | hSeparator | ⟨name, hFilled, hInName⟩
      · exact absurd hNothing (by decide)
      · exact absurd hSeparator (by decide)
      · exact hNul (segment_subset (List.mem_of_mem_filter hFilled) hInName)
    · exact absurd hSeparator (by decide)
    · exact hNameNul hFile

/-! ## What a tree holds -/

namespace Tree

variable {t t' content : Tree} {names front other more : List String}

/-- What a tree holds under names that lead down from its top. -/
def at? : Tree → List String → Option Tree
  | t, [] => some t
  | t, name :: rest => (t.child? name).bind (at? · rest)

/-- Whether names lead to a folder. -/
def FolderAt (t : Tree) (names : List String) : Prop :=
  ∃ children, t.at? names = some (.folder children)

@[simp] theorem at?_nil (t : Tree) : t.at? [] = some t := rfl

theorem at?_append (t : Tree) (front back : List String) :
    t.at? (front ++ back) = (t.at? front).bind (·.at? back) := by
  induction front generalizing t with
  | nil => rfl
  | cons name rest ih =>
    rw [List.cons_append, at?, at?]
    cases t.child? name with
    | none => rfl
    | some next => exact ih next

theorem foldl_child? (found : Option Tree) (names : List String) :
    names.foldl (fun found name => found.bind (child? name)) found = found.bind (·.at? names) := by
  induction names generalizing found with
  | nil => cases found <;> rfl
  | cons name rest ih =>
    rw [List.foldl_cons, ih]
    cases found <;> rfl

theorem at?_empty (h : names ≠ []) : empty.at? names = none := by
  cases names with
  | nil => exact absurd rfl h
  | cons name rest => rfl

/-! ## What a graft changes -/

theorem child?_graft (name other : String) (rest : List String) :
    (graft content (name :: rest) t).child? other =
      if name = other then some (graft content rest ((t.child? name).getD empty))
      else t.child? other := by
  cases t with
  | file bytes => rfl
  | folder children => exact Table.find?_put name other _ children

theorem at?_graft_append (content t : Tree) (names more : List String) :
    (graft content names t).at? (names ++ more) = content.at? more := by
  induction names generalizing t with
  | nil => rfl
  | cons name rest ih =>
    rw [List.cons_append, at?, child?_graft, if_pos rfl]
    exact ih _

theorem folderAt_graft (content t : Tree) (front : List String) (name : String)
    (rest : List String) : FolderAt (graft content (front ++ name :: rest) t) front := by
  induction front generalizing t with
  | nil =>
    cases t with
    | file bytes => exact ⟨_, rfl⟩
    | folder children => exact ⟨_, rfl⟩
  | cons first front ih =>
    unfold FolderAt
    rw [List.cons_append, at?, child?_graft, if_pos rfl]
    exact ih _

theorem at?_graft_apart (hBelow : ¬ names <+: other) (hAbove : ¬ other <+: names) :
    (graft content names t).at? other = t.at? other := by
  induction names generalizing t other with
  | nil => exact absurd List.nil_prefix hBelow
  | cons name rest ih =>
    cases other with
    | nil => exact absurd List.nil_prefix hAbove
    | cons first more =>
      rw [at?, at?, child?_graft]
      split
      · rename_i hSame
        subst hSame
        rw [List.cons_prefix_cons, not_and] at hBelow hAbove
        have hMore : more ≠ [] := fun hNil => hAbove rfl (hNil ▸ List.nil_prefix)
        refine (ih (hBelow rfl) (hAbove rfl)).trans ?_
        cases t.child? name with
        | none => exact at?_empty hMore
        | some next => rfl
      · rfl

/-! ## Files that are added -/

/-- A tree with folders all the way along some names, and elsewhere as it was. -/
structure Opens (names : List String) (t t' : Tree) : Prop where
  folder : ∀ front, front <+: names → FolderAt t' front
  rest : ∀ other, ¬ other <+: names → t'.at? other = t.at? other

/-- Whether no file is in the way where folders are to be made. -/
def Free (t : Tree) (names : List String) : Prop :=
  ∀ front, front <+: names → ∀ bytes, t.at? front ≠ some (.file bytes)

theorem opens_ensureFolder (h : t.Free names) : Opens names t (t.ensureFolder names) := by
  have hGraft : t.ensureFolder names = graft ((t.at? names).getD empty) names t := by
    rw [ensureFolder, foldl_child?]
    rfl
  rw [hGraft]
  constructor
  · rintro front ⟨back, rfl⟩
    cases back with
    | cons name rest => exact folderAt_graft _ t front name rest
    | nil =>
      rw [List.append_nil] at h ⊢
      have hHere := at?_graft_append ((t.at? front).getD empty) t front []
      rw [List.append_nil] at hHere
      unfold FolderAt
      rw [hHere]
      cases hFound : t.at? front with
      | none => exact ⟨[], rfl⟩
      | some found =>
        cases found with
        | file bytes => exact absurd hFound (h front (List.prefix_refl front) bytes)
        | folder children => exact ⟨children, rfl⟩
  · intro other hOther
    by_cases hBelow : names <+: other
    · obtain ⟨more, rfl⟩ := hBelow
      have hMore : more ≠ [] := by
        rintro rfl
        exact hOther (by simp)
      rw [at?_graft_append, at?_append]
      cases t.at? names with
      | none => exact at?_empty hMore
      | some found => rfl
    · exact at?_graft_apart hBelow hOther

theorem ensureFolders_concat {name : String} (h : IsPlain name) (t : Tree) (front : List String) :
    t.ensureFolders (front ++ [name]) =
      ((t.ensureFolders front).1.ensureFolder ((t.ensureFolders front).2 ++ [name]),
        (t.ensureFolders front).2 ++ [name]) := by
  simp [ensureFolders, enter, h.2.1, h.2.2]

theorem opens_ensureFolders (hPlain : ∀ name ∈ names, IsPlain name) (hTop : t.FolderAt [])
    (h : t.Free names) :
    (t.ensureFolders names).2 = names ∧ Opens names t (t.ensureFolders names).1 := by
  induction names using List.reverseRecOn with
  | nil =>
    refine ⟨rfl, ?_, fun other _ => rfl⟩
    intro front hFront
    rw [List.prefix_nil.mp hFront]
    exact hTop
  | append_singleton names name ih =>
    have hFront : t.Free names := fun front hFront => h front (hFront.trans (List.prefix_append ..))
    obtain ⟨hNames, hOpens⟩ := ih (fun s hs => hPlain s (List.mem_append_left _ hs)) hFront
    have hFree : (t.ensureFolders names).1.Free (names ++ [name]) := by
      intro front hPrefix bytes hFile
      by_cases hOpen : front <+: names
      · obtain ⟨children, hFolder⟩ := hOpens.folder front hOpen
        rw [hFolder] at hFile
        cases hFile
      · rw [hOpens.rest front hOpen] at hFile
        exact h front hPrefix bytes hFile
    rw [ensureFolders_concat (hPlain name (by simp)), hNames]
    obtain ⟨hFolder, hRest⟩ := opens_ensureFolder hFree
    refine ⟨rfl, hFolder, fun other hOther => ?_⟩
    rw [hRest other hOther]
    exact hOpens.rest other fun hPrefix => hOther (hPrefix.trans (List.prefix_append ..))

/-- A tree with a file under some names and folders on the way there, and elsewhere as it was. -/
structure Adds (names : List String) (bytes : ByteArray) (t t' : Tree) : Prop where
  file : t'.at? names = some (.file bytes)
  above : ∀ front, front <+: names → front ≠ names → FolderAt t' front
  below : ∀ other, names <+: other → other ≠ names → t'.at? other = none
  apart : ∀ other, ¬ names <+: other → ¬ other <+: names → t'.at? other = t.at? other

theorem adds_addFile {path : String} (hPath : PlainPath path) (hTop : t.FolderAt [])
    (h : t.Free (components path).dropLast) (bytes : ByteArray) :
    Adds (components path) bytes t (t.addFile path bytes) := by
  have hFolders : ∀ name ∈ (components path).dropLast, IsPlain name :=
    fun name hName => hPath.plain name ((List.dropLast_sublist _).subset hName)
  obtain ⟨hNames, -, hRest⟩ := opens_ensureFolders hFolders hTop h
  have hAll : (components path).dropLast ++ (components path).getLast?.toList =
      components path := by
    rw [List.getLast?_eq_some_getLast hPath.filled]
    exact List.dropLast_append_getLast hPath.filled
  have hGraft : t.addFile path bytes =
      graft (.file bytes) (components path) (t.ensureFolders (components path).dropLast).1 := by
    show graft (.file bytes)
      ((t.ensureFolders (components path).dropLast).2 ++ (components path).getLast?.toList) _ = _
    rw [hNames, hAll]
    rfl
  rw [hGraft]
  have hHere := at?_graft_append (.file bytes) (t.ensureFolders (components path).dropLast).1
    (components path)
  refine ⟨?_, ?_, ?_, ?_⟩
  · simpa using hHere []
  · rintro front ⟨back, hBack⟩ hOther
    cases back with
    | nil => exact absurd (by simpa using hBack) hOther
    | cons name rest =>
      rw [← hBack]
      exact folderAt_graft _ _ front name rest
  · rintro other ⟨more, rfl⟩ hOther
    rw [hHere]
    cases more with
    | nil => exact absurd (List.append_nil _) hOther
    | cons name rest => rfl
  · intro other hBelow hAbove
    rw [at?_graft_apart hBelow hAbove]
    exact hRest other fun hPrefix => hAbove (hPrefix.trans (List.dropLast_prefix _))

end Tree

/-! ## Trees of files -/

/-- Whether no file is below another one, so that all can be files of one tree. -/
def Coexist (files : List (String × String)) : Prop :=
  ∀ f ∈ files, ∀ g ∈ files, components f.1 <+: components g.1 → components f.1 = components g.1

instance (files : List (String × String)) : Decidable (Coexist files) :=
  inferInstanceAs (Decidable (∀ f ∈ files, ∀ g ∈ files, _ → _))

/-- Whether names lead to a file. -/
def IsFile (files : List (String × String)) (names : List String) : Prop :=
  ∃ f ∈ files, components f.1 = names

instance (files : List (String × String)) (names : List String) : Decidable (IsFile files names) :=
  inferInstanceAs (Decidable (∃ f ∈ files, _))

/-- Whether names lead to the top or to a folder on the way to a file. -/
def IsFolder (files : List (String × String)) (names : List String) : Prop :=
  names = [] ∨ ∃ f ∈ files, names <+: components f.1 ∧ names ≠ components f.1

instance (files : List (String × String)) (names : List String) :
    Decidable (IsFolder files names) :=
  inferInstanceAs (Decidable (_ ∨ ∃ f ∈ files, _ ∧ _))

/-- The text that names lead to in memory. -/
def textAt (files : List (String × String)) (names : List String) : Option String :=
  (Store.ofList files).texts.get? ⟨false, names⟩

variable {files : List (String × String)} {f : String × String} {names : List String}

theorem Coexist.of_append {more : List (String × String)} (h : Coexist (files ++ more)) :
    Coexist files :=
  fun f hf g hg => h f (List.mem_append_left _ hf) g (List.mem_append_left _ hg)

theorem textAt_concat (hf : PlainPath f.1) :
    textAt (files ++ [f]) names =
      if components f.1 = names then some f.2 else textAt files names := by
  have hLast : Store.ofList (files ++ [f]) = (Store.ofList files).insert f.1 f.2 :=
    List.foldl_concat ..
  rw [textAt, hLast, Store.insert, Table.get?_insert, hf.locate_eq]
  simp only [Location.mk.injEq, true_and]
  rfl

theorem textAt_eq_none_iff (hFiles : ∀ f ∈ files, PlainPath f.1) :
    textAt files names = none ↔ ¬ IsFile files names := by
  induction files using List.reverseRecOn with
  | nil => exact iff_of_true rfl (by simp [IsFile])
  | append_singleton files f ih =>
    have ih := ih fun g hg => hFiles g (List.mem_append_left _ hg)
    rw [textAt_concat (hFiles f (by simp))]
    split
    · rename_i hHere
      exact iff_of_false (by simp) (not_not.mpr ⟨f, by simp, hHere⟩)
    · rename_i hOther
      rw [ih]
      simp [IsFile, or_and_right, exists_or, hOther]

theorem isFolder_concat :
    IsFolder (files ++ [f]) names ↔
      IsFolder files names ∨ (names <+: components f.1 ∧ names ≠ components f.1) := by
  simp only [IsFolder, List.mem_append, List.mem_singleton, or_and_right, exists_or,
    exists_eq_left, or_assoc]

/-- No new file is a folder, or below one, on the way to the files that it can be added to. -/
theorem IsFolder.not_prefix (h : IsFolder files names) (hCoexist : Coexist (files ++ [f]))
    (hf : components f.1 ≠ []) : ¬ components f.1 <+: names := by
  intro hBelow
  rcases h with rfl | ⟨g, hg, hAbove, hOther⟩
  · exact hf (List.prefix_nil.mp hBelow)
  · have hSame := hCoexist f (by simp) g (List.mem_append_left _ hg) (hBelow.trans hAbove)
    exact hOther (hAbove.eq_of_length_le (hSame ▸ hBelow.length_le))

theorem isFile_iff (hFiles : ∀ f ∈ files, PlainPath f.1) :
    IsFile files names ↔ ∃ text, textAt files names = some text := by
  rw [← not_iff_not, ← textAt_eq_none_iff hFiles, ← Option.ne_none_iff_exists', not_not]

/-- A tree that holds what files make up: under all names a text, a folder, or nothing. -/
structure Tree.Mirrors (files : List (String × String)) (t : Tree) : Prop where
  file : ∀ names text, textAt files names = some text → t.at? names = some (.file text.toUTF8)
  folder : ∀ names, IsFolder files names → t.FolderAt names
  nothing : ∀ names, textAt files names = none → ¬ IsFolder files names → t.at? names = none

namespace Tree

variable {t : Tree}

theorem Mirrors.at?_cases (h : t.Mirrors files) (names : List String) :
    (∃ text, textAt files names = some text ∧ t.at? names = some (.file text.toUTF8)) ∨
    (IsFolder files names ∧ t.FolderAt names) ∨
    (textAt files names = none ∧ t.at? names = none) := by
  cases hText : textAt files names with
  | some text => exact .inl ⟨text, rfl, h.file names text hText⟩
  | none =>
    by_cases hFolder : IsFolder files names
    · exact .inr (.inl ⟨hFolder, h.folder names hFolder⟩)
    · exact .inr (.inr ⟨rfl, h.nothing names hText hFolder⟩)

theorem Mirrors.text_of_file (h : t.Mirrors files) {bytes : ByteArray}
    (hAt : t.at? names = some (.file bytes)) :
    ∃ text, textAt files names = some text ∧ bytes = text.toUTF8 := by
  rcases h.at?_cases names with ⟨text, hText, hFile⟩ | ⟨-, children, hFolder⟩ | ⟨-, hNothing⟩
  · cases hAt.symm.trans hFile
    exact ⟨text, hText, rfl⟩
  · cases hAt.symm.trans hFolder
  · cases hAt.symm.trans hNothing

theorem Mirrors.folder_of_folderAt (h : t.Mirrors files) (hAt : t.FolderAt names) :
    IsFolder files names := by
  obtain ⟨children, hAt⟩ := hAt
  rcases h.at?_cases names with ⟨text, -, hFile⟩ | ⟨hFolder, -⟩ | ⟨-, hNothing⟩
  · cases hAt.symm.trans hFile
  · exact hFolder
  · cases hAt.symm.trans hNothing

theorem Mirrors.textAt_eq_none (h : t.Mirrors files) (hAt : t.at? names = none) :
    textAt files names = none := by
  rcases h.at?_cases names with ⟨text, -, hFile⟩ | ⟨-, children, hFolder⟩ | ⟨hText, -⟩
  · cases hAt.symm.trans hFile
  · cases hAt.symm.trans hFolder
  · exact hText

theorem Mirrors.free (h : t.Mirrors files) (hFiles : ∀ g ∈ files, PlainPath g.1)
    (hCoexist : Coexist (files ++ [f])) (hf : components f.1 ≠ []) :
    t.Free (components f.1).dropLast := by
  intro front hFront bytes hFile
  obtain ⟨text, hText, -⟩ := h.text_of_file hFile
  obtain ⟨g, hg, rfl⟩ := (isFile_iff hFiles).mpr ⟨text, hText⟩
  have hPrefix : components g.1 <+: components f.1 := hFront.trans (List.dropLast_prefix _)
  have hSame := hCoexist g (List.mem_append_left _ hg) f (by simp) hPrefix
  have hLength := hFront.length_le
  rw [hSame, List.length_dropLast] at hLength
  have hFilled := List.length_pos_iff.mpr hf
  omega

theorem Mirrors.addFile (h : t.Mirrors files) (hFiles : ∀ g ∈ files ++ [f], PlainPath g.1)
    (hCoexist : Coexist (files ++ [f])) :
    (t.addFile f.1 f.2.toUTF8).Mirrors (files ++ [f]) := by
  have hOld : ∀ g ∈ files, PlainPath g.1 := fun g hg => hFiles g (List.mem_append_left _ hg)
  have hNew : PlainPath f.1 := hFiles f (by simp)
  have hAdds := adds_addFile hNew (h.folder [] (.inl rfl))
    (h.free hOld hCoexist hNew.filled) f.2.toUTF8
  constructor
  · intro names text hText
    rw [textAt_concat hNew] at hText
    split at hText
    · rename_i hHere
      cases hText
      exact hHere ▸ hAdds.file
    · rename_i hOther
      have hFile : IsFile files names := by
        by_contra hNone
        rw [(textAt_eq_none_iff hOld).mpr hNone] at hText
        cases hText
      obtain ⟨g, hg, rfl⟩ := hFile
      have hBelow : ¬ components f.1 <+: components g.1 :=
        fun hPrefix => hOther (hCoexist f (by simp) g (List.mem_append_left _ hg) hPrefix)
      have hAbove : ¬ components g.1 <+: components f.1 :=
        fun hPrefix => hOther (hCoexist g (List.mem_append_left _ hg) f (by simp) hPrefix).symm
      rw [hAdds.apart _ hBelow hAbove]
      exact h.file _ text hText
  · intro names hFolder
    rcases isFolder_concat.mp hFolder with hFolder | ⟨hAbove, hOther⟩
    · have hBelow := hFolder.not_prefix hCoexist hNew.filled
      by_cases hAbove : names <+: components f.1
      · have hOther : names ≠ components f.1 := fun hSame => hBelow (hSame ▸ List.prefix_refl _)
        exact hAdds.above names hAbove hOther
      · unfold FolderAt
        rw [hAdds.apart names hBelow hAbove]
        exact h.folder names hFolder
    · exact hAdds.above names hAbove hOther
  · intro names hText hFolder
    rw [textAt_concat hNew] at hText
    split at hText
    · cases hText
    · rename_i hOther
      rw [isFolder_concat, not_or, not_and_not_right] at hFolder
      obtain ⟨hNoFolder, hNotAbove⟩ := hFolder
      by_cases hBelow : components f.1 <+: names
      · exact hAdds.below names hBelow (Ne.symm hOther)
      · rw [hAdds.apart names hBelow fun hAbove => hOther (hNotAbove hAbove).symm]
        exact h.nothing names hText hNoFolder

theorem mirrors_ofList (hFiles : ∀ f ∈ files, PlainPath f.1) (hCoexist : Coexist files) :
    (ofList files).Mirrors files := by
  induction files using List.reverseRecOn with
  | nil =>
    refine ⟨nofun, ?_, ?_⟩
    · rintro names (rfl | ⟨f, hf, -⟩)
      · exact ⟨[], rfl⟩
      · exact absurd hf List.not_mem_nil
    · intro names hText hFolder
      exact at?_empty fun hNil => hFolder (.inl hNil)
  | append_singleton files f ih =>
    have hLast : ofList (files ++ [f]) = (ofList files).addFile f.1 f.2.toUTF8 :=
      List.foldl_concat ..
    have hMirrors := ih (fun g hg => hFiles g (List.mem_append_left _ hg)) hCoexist.of_append
    rw [hLast]
    exact hMirrors.addFile hFiles hCoexist

end Tree

end Resource

end Heritage
