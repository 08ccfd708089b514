import Heritage.Failure
import Heritage.Resource.Path
import Heritage.Table

/-!
# Stores of resources

A loader finds the text of the resource that a path names. That there is no such resource is an
answer and no failure. The store below holds texts in memory, by location.
-/

namespace Heritage.Resource

/-- A way to find the text of a resource. -/
abbrev Loader := String → Except Failure (Option String)

/-- Texts by location. -/
structure Store where
  texts : Table Location String
  deriving DecidableEq, Repr

namespace Store

/-- The store without texts. -/
def empty : Store := ⟨.empty⟩

/-- The store with one more text, which replaces the one at the same location. -/
def insert (s : Store) (path text : String) : Store :=
  ⟨s.texts.insert (locate path) text⟩

/-- The store that results from writing texts one after another. -/
def ofList (files : List (String × String)) : Store :=
  files.foldl (fun s f => s.insert f.1 f.2) empty

/-- The text at a path. -/
def get? (s : Store) (path : String) : Option String :=
  s.texts.get? (locate path)

/-- The loader that looks a path up in the store. -/
def loader (s : Store) : Loader := fun path => .ok (s.get? path)

/-- The loader of a store that cannot be read at some paths, which are compared by their text. -/
def loaderFailingAt (s : Store) (failing : List String) (fault : ReadFault) : Loader := fun path =>
  if path ∈ failing then .error (.resource path fault) else s.loader path

theorem get?_insert (s : Store) (path other text : String) :
    (s.insert path text).get? other =
      if locate path = locate other then some text else s.get? other :=
  Table.get?_insert s.texts (locate path) (locate other) text

end Store

end Heritage.Resource
