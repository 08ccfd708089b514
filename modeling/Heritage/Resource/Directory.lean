import Heritage.Resource.Store

/-!
# Resources in a directory

Resources may be the files below a directory. A path is followed from there component by component:
a file cannot be passed through, two dots step back to the folder before, and no path may leave the
directory, not even to come back. A file that is not there is no failure; neither is one below a
folder that is not there, whatever follows. Names and paths have a greatest size, and no path holds
the character NUL. What is found must be a file, and its bytes the encoding of a text.
-/

namespace Heritage.Resource

/-- A file with its bytes, or a folder with what it holds by name. -/
inductive Tree where
  | file (content : ByteArray)
  | folder (children : List (String × Tree))

namespace Tree

/-- The folder that holds nothing. -/
def empty : Tree := .folder []

/-- What a folder holds under a name. -/
def child? (name : String) : Tree → Option Tree
  | .file _ => none
  | .folder children => Table.find? name children

/-- The tree with `content` put at the end of a path of names, with folders made on the way. A file
on the way gives place to a folder. -/
def graft (content : Tree) : List String → Tree → Tree
  | [], _ => content
  | name :: rest, t =>
    let below := graft content rest ((t.child? name).getD empty)
    match t with
    | .file _ => .folder [(name, below)]
    | .folder children => .folder (Table.put name below children)

/-- The names that lead to where `component` goes from the folder to which `names` lead, the last
name first. -/
def enter (names : List String) (component : String) : List String :=
  if component = "." then names
  else if component = ".." then names.tail
  else component :: names

/-- The tree with a folder where names lead to; what is in it already stays. -/
def ensureFolder (t : Tree) (names : List String) : Tree :=
  let present := names.foldl (fun (found : Option Tree) name => found.bind (child? name)) (some t)
  graft (present.getD empty) names t

/-- The tree with all folders that components lead through, also those that a step back leaves, and
the names that lead to the last of them. -/
def ensureFolders (t : Tree) (components : List String) : Tree × List String :=
  let last := components.foldl (fun (here : Tree × List String) c =>
    let names := enter here.2 c
    (here.1.ensureFolder names.reverse, names)) (t, [])
  (last.1, last.2.reverse)

/-- The tree with a file at a path, and with all folders on the way there. -/
def addFile (t : Tree) (path : String) (content : ByteArray) : Tree :=
  let all := components path
  let (folders, above) := t.ensureFolders all.dropLast
  graft (.file content) (above ++ all.getLast?.toList) folders

/-- The tree with a folder at a path, and with all folders on the way there. -/
def addFolder (t : Tree) (path : String) : Tree :=
  (t.ensureFolders (components path)).1

/-- The tree that holds texts as files, written one after another. -/
def ofList (files : List (String × String)) : Tree :=
  files.foldl (fun t f => t.addFile f.1 f.2.toUTF8) empty

/-- The greatest size of a name, in bytes. -/
def nameLimit : Nat := 255

/-- The greatest size of a path, in bytes. -/
def pathLimit : Nat := 4095

/-- Follows components from `here`, where `above` holds the folders that were passed, the nearest
one first. Above the top there is a folder of which nothing is known, and which a path that is
`confined` cannot reach. -/
def follow (confined : Bool) :
    List Tree → Tree → List String → Except ReadFault Tree
  | _, here, [] => .ok here
  | _, .file _, _ :: _ => .error .notADirectory
  | above, .folder children, c :: rest =>
    if c = "." then follow confined above (.folder children) rest
    else if c = ".." then
      match above with
      | parent :: older => follow confined older parent rest
      | [] => if confined then .error .outside else follow confined [] empty rest
    else if nameLimit < c.utf8ByteSize then .error .nameTooLong
    else
      match Table.find? c children with
      | none => .error .notFound
      | some next => follow confined (.folder children :: above) next rest

/-- The directory that a path names. An empty path names the tree itself, and of an absolute path no
more than its top is known. -/
def directory? (t : Tree) (path : String) : Except ReadFault Tree :=
  if '\x00' ∈ path.toList then .error .invalidDirectoryPath
  else if pathLimit < path.utf8ByteSize then .error .nameTooLong
  else
    match follow false [] (if isAbsolute path then empty else t) (components path) with
    | .error fault => .error fault
    | .ok (.file _) => .error .notADirectory
    | .ok found => .ok found

/-- The text of the file that a path names below the directory `t`. -/
def read (t : Tree) (path : String) : Except ReadFault String :=
  if '\x00' ∈ path.toList then .error .invalidPath
  else if pathLimit < path.utf8ByteSize then .error .nameTooLong
  else if isAbsolute path then .error .outside
  else if path = "" then .error .notFound
  else
    match follow true [] t (components path) with
    | .error fault => .error fault
    | .ok (.folder _) => .error .isADirectory
    | .ok (.file content) =>
      if path.toList.getLast? = some '/' then .error .notADirectory
      else
        match String.fromUTF8? content with
        | some text => .ok text
        | none => .error .notText

/-- The loader that reads files below a directory. -/
def loader (t : Tree) : Loader := fun path =>
  match t.read path with
  | .ok text => .ok (some text)
  | .error .notFound => .ok none
  | .error fault => .error (.resource path fault)

end Tree

end Heritage.Resource
