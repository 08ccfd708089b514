import Heritage.Proofs.DirectoryTree

/-!
# Files in memory and in a directory

The same files can be held in memory or below a directory. What is found in memory is found in the
directory as well, unless the way there is obstructed: by a file where a folder should be, a folder
where the file should be, or a name or path that is too long. Then the directory reports a failure,
where the memory has the text or says that there is none.

* `Tree.follow_cases`: how far a path can be followed;
* `Tree.Mirrors.loader_of_obstructs`, `Tree.Mirrors.loader_of_free`: what is loaded with and without
  an obstruction;
* `Tree.loader_addFile`: what one more file below a directory changes for a loader;
* `directory_agrees_iff`: when memory and directory give the same for a package.

Paths are relative and without dots here, and in the last statement no file is below another one.
-/

namespace Heritage

theorem fromUTF8?_toUTF8 (text : String) : String.fromUTF8? text.toUTF8 = some text := by
  rw [String.fromUTF8?, String.toUTF8_eq_toByteArray, dif_pos text.isValidUTF8]
  rfl

namespace Resource

variable {files : List (String × String)} {names : List String}

/-! ## Paths that are followed -/

/-- Names that are no longer than the limit. -/
def Fits (names : List String) : Prop :=
  ∀ name ∈ names, name.utf8ByteSize ≤ Tree.nameLimit

namespace Tree

variable {here there : Tree} {front back : List String}

theorem follow_plain {name : String} (h : IsPlain name) (above : List Tree)
    (children : List (String × Tree)) (rest : List String) :
    follow true above (.folder children) (name :: rest) =
      if nameLimit < name.utf8ByteSize then .error .nameTooLong
      else
        match Table.find? name children with
        | none => .error .notFound
        | some next => follow true (.folder children :: above) next rest :=
  (if_neg h.2.1).trans (if_neg h.2.2)

/-- Where names lead, a path through them goes on. -/
theorem follow_append (hPlain : ∀ name ∈ front, IsPlain name) (hFits : Fits front)
    (h : here.at? front = some there) (above : List Tree) (back : List String) :
    ∃ passed, follow true above here (front ++ back) = follow true passed there back := by
  induction front generalizing here above with
  | nil =>
    cases h
    exact ⟨above, rfl⟩
  | cons name rest ih =>
    obtain ⟨hName, hRest⟩ := List.forall_mem_cons.mp hPlain
    obtain ⟨hSize, hSizes⟩ := List.forall_mem_cons.mp hFits
    rw [at?] at h
    obtain ⟨next, hNext, hThere⟩ := Option.bind_eq_some_iff.mp h
    cases here with
    | file bytes => cases hNext
    | folder children =>
      have hFound : Table.find? name children = some next := hNext
      rw [List.cons_append, follow_plain hName, if_neg (Nat.not_lt.mpr hSize), hFound]
      exact ih hRest hSizes hThere _

theorem follow_of_found (hPlain : ∀ name ∈ names, IsPlain name) (hFits : Fits names)
    (h : here.at? names = some there) : follow true [] here names = .ok there := by
  obtain ⟨passed, hFollow⟩ := follow_append hPlain hFits h [] []
  rwa [List.append_nil, follow] at hFollow

theorem follow_of_file (hPlain : ∀ name ∈ front, IsPlain name) (hFits : Fits front)
    {bytes : ByteArray} (h : here.at? front = some (.file bytes)) (name : String)
    (back : List String) : follow true [] here (front ++ name :: back) = .error .notADirectory := by
  obtain ⟨passed, hFollow⟩ := follow_append hPlain hFits h [] (name :: back)
  rw [hFollow, follow]

/-- A path leads to something, or to a place where nothing is, or it meets what it cannot pass. -/
theorem follow_cases (hPlain : ∀ name ∈ names, IsPlain name) (above : List Tree) (here : Tree) :
    (here.at? names = none ∧ follow true above here names = .error .notFound) ∨
    (Fits names ∧ ∃ found, here.at? names = some found) ∨
    ∃ front name back, names = front ++ name :: back ∧ Fits front ∧
      ((∃ bytes, here.at? front = some (.file bytes)) ∨
        here.FolderAt front ∧ nameLimit < name.utf8ByteSize) := by
  induction names generalizing above here with
  | nil => exact .inr (.inl ⟨nofun, here, rfl⟩)
  | cons name rest ih =>
    obtain ⟨hName, hRest⟩ := List.forall_mem_cons.mp hPlain
    cases here with
    | file bytes => exact .inr (.inr ⟨[], name, rest, rfl, nofun, .inl ⟨bytes, rfl⟩⟩)
    | folder children =>
      by_cases hSize : nameLimit < name.utf8ByteSize
      · exact .inr (.inr ⟨[], name, rest, rfl, nofun, .inr ⟨⟨children, rfl⟩, hSize⟩⟩)
      · have hAt : ∀ names, at? (.folder children) (name :: names) =
            (Table.find? name children).bind (·.at? names) := fun _ => rfl
        have hFits : ∀ names, Fits names → Fits (name :: names) := fun names hNames =>
          List.forall_mem_cons.mpr ⟨Nat.not_lt.mp hSize, hNames⟩
        rw [follow_plain hName, if_neg hSize]
        unfold FolderAt at ih ⊢
        cases hFound : Table.find? name children with
        | none => exact .inl ⟨by rw [hAt, hFound]; rfl, rfl⟩
        | some next =>
          rw [hAt, hFound]
          rcases ih hRest (.folder children :: above) next with
            hNothing | ⟨hSizes, hSome⟩ | ⟨front, other, back, hNames, hSizes, hStop⟩
          · exact .inl hNothing
          · exact .inr (.inl ⟨hFits rest hSizes, hSome⟩)
          · refine .inr (.inr ⟨name :: front, other, back, ?_, hFits front hSizes, ?_⟩)
            · rw [hNames, List.cons_append]
            · rw [hAt, hFound]
              exact hStop

/-! ## Reading with and without an obstruction -/

section

variable {path : String} (h : PlainPath path) (hPath : path.utf8ByteSize ≤ pathLimit) {t : Tree}

include h hPath

theorem read_of_stopped {fault : ReadFault}
    (hFollow : follow true [] t (components path) = .error fault) :
    t.read path = .error fault := by
  rw [read, if_neg h.nulFree, if_neg (Nat.not_lt.mpr hPath), h.relative,
    if_neg Bool.false_ne_true, if_neg h.ne_empty, hFollow]

theorem read_of_folder {children : List (String × Tree)}
    (hFollow : follow true [] t (components path) = .ok (.folder children)) :
    t.read path = .error .isADirectory := by
  rw [read, if_neg h.nulFree, if_neg (Nat.not_lt.mpr hPath), h.relative,
    if_neg Bool.false_ne_true, if_neg h.ne_empty, hFollow]

theorem read_of_file {text : String}
    (hFollow : follow true [] t (components path) = .ok (.file text.toUTF8)) :
    t.read path = .ok text := by
  rw [read, if_neg h.nulFree, if_neg (Nat.not_lt.mpr hPath), h.relative,
    if_neg Bool.false_ne_true, if_neg h.ne_empty, hFollow]
  simp only [if_neg h.unslashed, fromUTF8?_toUTF8]

end

end Tree

/-- What keeps a path from being followed to its end below a directory of files. -/
inductive Obstructs (files : List (String × String)) (path : String) : ReadFault → Prop
  | path (hPath : Tree.pathLimit < path.utf8ByteSize) : Obstructs files path .nameTooLong
  | name {front back : List String} {name : String} (hPath : path.utf8ByteSize ≤ Tree.pathLimit)
      (hNames : components path = front ++ name :: back) (hFits : Fits front)
      (hFront : IsFolder files front) (hName : Tree.nameLimit < name.utf8ByteSize) :
      Obstructs files path .nameTooLong
  | file {front back : List String} {name : String} (hPath : path.utf8ByteSize ≤ Tree.pathLimit)
      (hNames : components path = front ++ name :: back) (hFits : Fits front)
      (hFront : IsFile files front) : Obstructs files path .notADirectory
  | folder (hPath : path.utf8ByteSize ≤ Tree.pathLimit) (hFits : Fits (components path))
      (hFolder : IsFolder files (components path)) : Obstructs files path .isADirectory

theorem Obstructs.ne_notFound {path : String} {fault : ReadFault} (h : Obstructs files path fault) :
    fault ≠ .notFound := by
  cases h <;> exact nofun

namespace Tree

variable {t : Tree} {path : String}

theorem Mirrors.read_of_obstructs (h : t.Mirrors files) (hFiles : ∀ f ∈ files, PlainPath f.1)
    (hPlain : PlainPath path) {fault : ReadFault} (hFault : Obstructs files path fault) :
    t.read path = .error fault := by
  cases hFault with
  | path hPath => rw [read, if_neg hPlain.nulFree, if_pos hPath]
  | @name front back name hPath hNames hFits hFront hName =>
    have hParts := List.forall_mem_append.mp (hNames ▸ hPlain.plain)
    obtain ⟨children, hAt⟩ := h.folder front hFront
    obtain ⟨passed, hFollow⟩ := follow_append hParts.1 hFits hAt [] (name :: back)
    refine read_of_stopped hPlain hPath ?_
    rw [hNames, hFollow, follow_plain (List.forall_mem_cons.mp hParts.2).1, if_pos hName]
  | @file front back name hPath hNames hFits hFront =>
    have hParts := List.forall_mem_append.mp (hNames ▸ hPlain.plain)
    obtain ⟨text, hText⟩ := (isFile_iff hFiles).mp hFront
    refine read_of_stopped hPlain hPath ?_
    rw [hNames, follow_of_file hParts.1 hFits (h.file front text hText)]
  | folder hPath hFits hFolder =>
    obtain ⟨children, hAt⟩ := h.folder _ hFolder
    exact read_of_folder hPlain hPath (follow_of_found hPlain.plain hFits hAt)

theorem Mirrors.read_of_free (h : t.Mirrors files) (hFiles : ∀ f ∈ files, PlainPath f.1)
    (hPlain : PlainPath path) (hFree : ∀ fault, ¬ Obstructs files path fault) :
    t.read path =
      match textAt files (components path) with
      | some text => .ok text
      | none => .error .notFound := by
  have hPath : path.utf8ByteSize ≤ pathLimit :=
    Nat.not_lt.mp fun hLong => hFree .nameTooLong (.path hLong)
  rcases follow_cases hPlain.plain [] t with
    ⟨hNothing, hFollow⟩ | ⟨hFits, found, hFound⟩ | ⟨front, name, back, hNames, hFits, hStop⟩
  · have hText := h.textAt_eq_none hNothing
    rw [read_of_stopped hPlain hPath hFollow, hText]
  · have hFollow := follow_of_found hPlain.plain hFits hFound
    cases found with
    | file bytes =>
      obtain ⟨text, hText, rfl⟩ := h.text_of_file hFound
      rw [read_of_file hPlain hPath hFollow, hText]
    | folder children =>
      exact absurd (.folder hPath hFits (h.folder_of_folderAt ⟨children, hFound⟩))
        (hFree .isADirectory)
  · rcases hStop with ⟨bytes, hFile⟩ | ⟨hFolder, hName⟩
    · obtain ⟨text, hText, -⟩ := h.text_of_file hFile
      exact absurd (.file hPath hNames hFits ((isFile_iff hFiles).mpr ⟨text, hText⟩))
        (hFree .notADirectory)
    · exact absurd (.name hPath hNames hFits (h.folder_of_folderAt hFolder) hName)
        (hFree .nameTooLong)

theorem Mirrors.loader_of_obstructs (h : t.Mirrors files) (hFiles : ∀ f ∈ files, PlainPath f.1)
    (hPlain : PlainPath path) {fault : ReadFault} (hFault : Obstructs files path fault) :
    t.loader path = .error (.resource path fault) := by
  have hOther := hFault.ne_notFound
  unfold loader
  rw [h.read_of_obstructs hFiles hPlain hFault]
  cases fault with
  | notFound => exact absurd rfl hOther
  | _ => rfl

theorem Mirrors.loader_of_free (h : t.Mirrors files) (hFiles : ∀ f ∈ files, PlainPath f.1)
    (hPlain : PlainPath path) (hFree : ∀ fault, ¬ Obstructs files path fault) :
    t.loader path = .ok (textAt files (components path)) := by
  unfold loader
  rw [h.read_of_free hFiles hPlain hFree]
  cases textAt files (components path) <;> rfl

end Tree

/-! ## A file that is added

A file below a directory is one more file for its own path. For any other path nothing changes,
unless one of the two paths leads through the end of the other.
-/

namespace Tree

variable {t t' : Tree} {path other : String} {bytes : ByteArray}

/-- A path without long names leads to something, or to a place where nothing is, or it meets a file
on the way. -/
theorem follow_cases_of_fits (hPlain : ∀ name ∈ names, IsPlain name) (hFits : Fits names)
    (here : Tree) :
    (here.at? names = none ∧ follow true [] here names = .error .notFound) ∨
    (∃ found, here.at? names = some found) ∨
    ∃ front name back bytes, names = front ++ name :: back ∧
      here.at? front = some (.file bytes) := by
  rcases follow_cases hPlain [] here with
    hNothing | ⟨-, hFound⟩ | ⟨front, name, back, hNames, -, hStop⟩
  · exact .inl hNothing
  · exact .inr (.inl hFound)
  · rcases hStop with ⟨bytes, hFile⟩ | ⟨-, hName⟩
    · exact .inr (.inr ⟨front, name, back, bytes, hNames, hFile⟩)
    · exact absurd (hFits name (by simp [hNames])) (Nat.not_le.mpr hName)

/-- Nothing but what is at the end of a path and the files on the way there matters to it. -/
theorem follow_congr (hPlain : ∀ name ∈ names, IsPlain name) (hFits : Fits names)
    (hEnd : t'.at? names = t.at? names)
    (hFiles : ∀ front, front <+: names → ∀ bytes,
      t'.at? front = some (.file bytes) ↔ t.at? front = some (.file bytes)) :
    follow true [] t' names = follow true [] t names := by
  have hStopped : ∀ front name back bytes, names = front ++ name :: back →
      t.at? front = some (.file bytes) → follow true [] t' names = follow true [] t names := by
    rintro front name back bytes rfl hFile
    obtain ⟨hFront, -⟩ := List.forall_mem_append.mp hPlain
    obtain ⟨hSizes, -⟩ := List.forall_mem_append.mp hFits
    have hAfter := (hFiles front (List.prefix_append front _) bytes).mpr hFile
    rw [follow_of_file hFront hSizes hFile, follow_of_file hFront hSizes hAfter]
  rcases follow_cases_of_fits hPlain hFits t with
    ⟨hNothing, hFollow⟩ | ⟨found, hFound⟩ | ⟨front, name, back, bytes, hNames, hFile⟩
  · rcases follow_cases_of_fits hPlain hFits t' with
      ⟨-, hFollow'⟩ | ⟨found, hFound⟩ | ⟨front, name, back, bytes, hNames, hFile⟩
    · rw [hFollow, hFollow']
    · rw [hEnd, hNothing] at hFound
      cases hFound
    · have hPrefix : front <+: names := hNames ▸ List.prefix_append front _
      exact hStopped front name back bytes hNames ((hFiles front hPrefix bytes).mp hFile)
  · rw [follow_of_found hPlain hFits hFound, follow_of_found hPlain hFits (hEnd.trans hFound)]
  · exact hStopped front name back bytes hNames hFile

theorem Adds.follow_eq {above : List String} {last : String}
    (h : Adds (above ++ [last]) bytes t t') (hFree : t.Free above)
    (hPlain : ∀ name ∈ names, IsPlain name) (hFits : Fits names)
    (hBelow : ¬ above ++ [last] <+: names) (hAbove : ¬ names <+: above ++ [last]) :
    follow true [] t' names = follow true [] t names := by
  refine follow_congr hPlain hFits (h.apart names hBelow hAbove) fun front hFront bytes => ?_
  have hOther : front ≠ above ++ [last] := fun hSame => hBelow (hSame ▸ hFront)
  by_cases hOnTheWay : front <+: above ++ [last]
  · -- there is a folder now, and there was no file before
    obtain ⟨children, hFolder⟩ := h.above front hOnTheWay hOther
    refine iff_of_false (by simp [hFolder]) (hFree front ?_ bytes)
    exact (List.prefix_concat_iff.mp hOnTheWay).resolve_left hOther
  · rw [h.apart front (fun hPast => hBelow (hPast.trans hFront)) hOnTheWay]

theorem read_congr (hPath : PlainPath path)
    (h : follow true [] t' (components path) = follow true [] t (components path)) :
    t'.read path = t.read path := by
  simp only [read, hPath.relative, Bool.false_eq_true, if_false, h]

/-- Where a loader finds nothing, there is room for a file: no file is in the way of the folders. -/
theorem free_of_loader {above : List String} {last : String} (hPath : PlainPath path)
    (hNames : components path = above ++ [last]) (hFits : Fits (components path))
    (hNone : t.loader path = .ok none) :
    path.utf8ByteSize ≤ pathLimit ∧ t.Free above := by
  have hRead : t.read path = .error .notFound := by
    unfold loader at hNone
    split at hNone
    · cases hNone
    · assumption
    · cases hNone
  have hSize : path.utf8ByteSize ≤ pathLimit := by
    by_contra hLong
    rw [read, if_neg hPath.nulFree, if_pos (Nat.not_le.mp hLong)] at hRead
    cases hRead
  refine ⟨hSize, ?_⟩
  rintro front ⟨back, rfl⟩ bytes hFile
  obtain ⟨name, rest, hRest⟩ := List.exists_cons_of_ne_nil (List.concat_ne_nil last back)
  rw [List.append_assoc, hRest] at hNames
  have hPlain := List.forall_mem_append.mp (hNames ▸ hPath.plain)
  have hFront := List.forall_mem_append.mp (hNames ▸ hFits)
  have hStopped := follow_of_file hPlain.1 hFront.1 hFile name rest
  rw [← hNames] at hStopped
  rw [read_of_stopped hPath hSize hStopped] at hRead
  cases hRead

theorem loader_addFile {above : List String} {last : String} (hTop : t.FolderAt [])
    (hPath : PlainPath path) (hNames : components path = above ++ [last])
    (hFits : Fits (components path)) (hNone : t.loader path = .ok none) (text : String) :
    (t.addFile path text.toUTF8).loader path = .ok (some text) ∧
      ∀ other, PlainPath other → Fits (components other) →
        ¬ components path <+: components other → ¬ components other <+: components path →
          (t.addFile path text.toUTF8).loader other = t.loader other := by
  obtain ⟨hSize, hFree⟩ := free_of_loader hPath hNames hFits hNone
  have hAdds := adds_addFile hPath hTop (by rwa [hNames, List.dropLast_concat]) text.toUTF8
  constructor
  · unfold loader
    rw [read_of_file hPath hSize (follow_of_found hPath.plain hFits hAdds.file)]
  · intro other hOther hOtherFits hBelow hAbove
    rw [hNames] at hAdds hBelow hAbove
    unfold loader
    rw [read_congr hOther (hAdds.follow_eq hFree hOther.plain hOtherFits hBelow hAbove)]

end Tree

/-! ## Property files of packages -/

/-- Whether the segments of a package can be names of folders, and none of them is the name that the
property files have. -/
structure PlainPackage (fileName package : String) : Prop where
  unslashed : '/' ∉ package.toList
  nulFree : '\x00' ∉ package.toList
  fits : Fits (components (pathOf fileName package))
  apart : fileName ∉ filled package

namespace PlainPackage

variable {fileName package other : String} (hName : IsPlain fileName)

include hName

theorem components_eq (h : PlainPackage fileName package) :
    components (pathOf fileName package) = filled package ++ [fileName] := by
  rw [(components_pathOf hName.1.isAbsolute h.unslashed).1, hName.1.components]

/-- Property files of packages with other folders are not below each other. -/
theorem not_prefix (h : PlainPackage fileName package) (hOther : PlainPackage fileName other)
    (hFolders : filled package ≠ filled other) :
    ¬ components (pathOf fileName package) <+: components (pathOf fileName other) := by
  rw [h.components_eq hName, hOther.components_eq hName, List.prefix_concat_iff]
  rintro (hSame | hPrefix)
  · exact hFolders (List.append_cancel_right hSame)
  · exact hOther.apart (hPrefix.subset (by simp))

end PlainPackage

/-- A package finds the same property file in memory and below a directory just when nothing in the
directory obstructs the path; an obstruction is reported. In memory nothing ever fails. -/
theorem directory_agrees_iff (hFiles : ∀ f ∈ files, PlainPath f.1) (hCoexist : Coexist files)
    {fileName package : String} (hName : IsPlain fileName) (hNameNul : '\x00' ∉ fileName.toList)
    (hSlash : '/' ∉ package.toList) (hNul : '\x00' ∉ package.toList) :
    let path := pathOf fileName package
    let inMemory := PropertyFile.properties? ⟨(Store.ofList files).loader, fileName⟩ package
    let inDirectory := PropertyFile.properties? ⟨(Tree.ofList files).loader, fileName⟩ package
    (∃ found, inMemory = .ok found ∧ (found = none ↔ ¬ IsFile files (components path))) ∧
    (inDirectory = inMemory ↔ ∀ fault, ¬ Obstructs files path fault) ∧
    ∀ fault, Obstructs files path fault → inDirectory = .error (.resource path fault) := by
  intro path inMemory inDirectory
  have hPlain : PlainPath path := plainPath_pathOf hName hNameNul hSlash hNul
  have hMirrors := Tree.mirrors_ofList hFiles hCoexist
  have hMemory : inMemory = .ok ((textAt files (components path)).map Properties.parse) := by
    show Except.ok (((Store.ofList files).texts.get? (locate path)).map Properties.parse) = _
    rw [hPlain.locate_eq]
    rfl
  have hObstructed : ∀ fault, Obstructs files path fault →
      inDirectory = .error (.resource path fault) := by
    intro fault hFault
    exact congrArg (Except.map _) (hMirrors.loader_of_obstructs hFiles hPlain hFault)
  refine ⟨⟨_, hMemory, ?_⟩, ⟨?_, ?_⟩, hObstructed⟩
  · rw [Option.map_eq_none_iff, textAt_eq_none_iff hFiles]
  · intro hSame fault hFault
    have hFails := (hObstructed fault hFault).symm.trans (hSame.trans hMemory)
    cases hFails
  · intro hFree
    exact (congrArg (Except.map _) (hMirrors.loader_of_free hFiles hPlain hFree)).trans
      hMemory.symm

namespace Fixture

/-- A property file at the top, and a file where the folder of a package would be. -/
def blockedFiles : List (String × String) := [("config.properties", "sdk: 21"), ("org", "x")]

theorem plainPath_of_blockedFiles : ∀ f ∈ blockedFiles, PlainPath f.1 := by
  intro f hf
  rcases List.mem_pair.mp hf with rfl | rfl
  · exact ⟨by decide, by decide, by decide, by decide, by decide⟩
  · exact ⟨by decide, by decide, by decide, by decide, by decide⟩

theorem not_obstructs_top (fault : ReadFault) :
    ¬ Obstructs blockedFiles "config.properties" fault := by
  have hOnly : ∀ {front back : List String} {name : String},
      components "config.properties" = front ++ name :: back →
        front = [] ∧ name = "config.properties" := by
    intro front back name hNames
    have hSingle : components "config.properties" = ["config.properties"] := by decide
    rw [hSingle] at hNames
    cases front with
    | nil =>
      cases hNames
      exact ⟨rfl, rfl⟩
    | cons first rest => exact absurd (congrArg List.length hNames) (by simp)
  rintro (hPath | ⟨-, hNames, -, -, hName⟩ | ⟨-, hNames, -, hFront⟩ | ⟨-, -, hFolder⟩)
  · exact absurd hPath (by decide)
  · obtain ⟨-, rfl⟩ := hOnly hNames
    exact absurd hName (by decide)
  · obtain ⟨rfl, -⟩ := hOnly hNames
    exact absurd hFront (by decide)
  · exact absurd hFolder (by decide)

end Fixture

theorem directory_agrees_iff_of_top :
    PropertyFile.properties? ⟨(Tree.ofList Fixture.blockedFiles).loader, defaultFileName⟩ "" =
      .ok (some (.parse "sdk: 21")) := by
  obtain ⟨-, hAgrees, -⟩ := directory_agrees_iff Fixture.plainPath_of_blockedFiles (by decide)
    (by decide : IsPlain defaultFileName) (by decide) (by decide : '/' ∉ "".toList) (by decide)
  have hSame := hAgrees.mpr Fixture.not_obstructs_top
  exact hSame.trans rfl

/-- Below the directory a file that is missing can be a failure. -/
theorem directory_fails_below_file :
    PropertyFile.properties? ⟨(Store.ofList Fixture.blockedFiles).loader, defaultFileName⟩ "org" =
        .ok none ∧
      PropertyFile.properties? ⟨(Tree.ofList Fixture.blockedFiles).loader, defaultFileName⟩ "org" =
        .error (.resource "org/config.properties" .notADirectory) := by
  constructor <;> rfl

end Resource

end Heritage
