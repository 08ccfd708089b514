import Heritage.Target
import Heritage.Chain

/-!
# Resource paths

A resource is named by a path of components between slashes. Paths are built by pushing one path
behind another; a path that begins with a slash replaces what was there. The text of a path is kept
as built, but two paths name the same resource when they have the same location: repeated slashes, a
slash at the end and dots for "here" do not matter, except for a dot that begins the path.
-/

namespace Heritage.Resource

/-- Whether a path begins with a slash. -/
def isAbsolute (path : String) : Bool :=
  path.toList.head? = some '/'

/-- The path `path` with `next` behind it. A slash is put between them unless one is there or the
path is empty, also when `next` is empty. -/
def push (path next : String) : String :=
  if isAbsolute next then next
  else if path = "" || path.toList.getLast? = some '/' then path ++ next
  else path ++ "/" ++ next

/-- The components of a path, without the empty ones. -/
def components (path : String) : List String :=
  ((path.toList.splitOn '/').filter (!·.isEmpty)).map String.ofList

/-- What a path names in a store that is not a directory: two dots are a component like any other.
-/
structure Location where
  absolute : Bool
  components : List String
  deriving DecidableEq, Repr

/-- The location of a path. -/
def locate (path : String) : Location :=
  match components path with
  | [] => ⟨isAbsolute path, []⟩
  | first :: rest =>
    let behind := rest.filter (· ≠ ".")
    if first = "." && isAbsolute path then ⟨true, behind⟩ else ⟨isAbsolute path, first :: behind⟩

/-- The path of the resource that a package declares its properties in: one component for each
segment of the package that is not empty, and the file name behind them. -/
def pathOf (fileName package : String) : String :=
  push (((segments package).filter (· ≠ "")).foldl push "") fileName

example : pathOf "c" "org..example." = "org/example/c" ∧ pathOf "c" "" = "c" ∧
    pathOf "/c" "org" = "/c" := by decide

end Heritage.Resource
