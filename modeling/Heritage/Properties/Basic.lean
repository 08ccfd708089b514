import Heritage.Properties.LogicalLine
import Heritage.Properties.Entry

/-!
# Property sets

A property set gives a value to each key that a property text declares; a key that is declared again
keeps its last value. The pairs are kept in the order of the keys, so that equal sets have equal
lists.

* `Properties.get?_insert`: what a declaration changes.
-/

namespace Heritage

/-- Keys with their values, in increasing order of the keys. -/
structure Properties where
  entries : List (String × String)
  deriving DecidableEq, Repr

namespace Properties

/-- The set that declares nothing. -/
def empty : Properties := ⟨[]⟩

/-- The value of `key` in a list of pairs. -/
def find? (key : String) : List (String × String) → Option String
  | [] => none
  | (k, value) :: rest => if k = key then some value else find? key rest

/-- The pairs with one more declaration, which goes where its key belongs. -/
def declare (key value : String) : List (String × String) → List (String × String)
  | [] => [(key, value)]
  | (k, old) :: rest =>
    if k = key then (key, value) :: rest
    else if key < k then (key, value) :: (k, old) :: rest
    else (k, old) :: declare key value rest

/-- The value of a key, also when it is empty. -/
def get? (p : Properties) (key : String) : Option String :=
  find? key p.entries

/-- The set with one more declaration. -/
def insert (p : Properties) (key value : String) : Properties :=
  ⟨declare key value p.entries⟩

/-- The set that declarations make up one after another. -/
def ofList (pairs : List (String × String)) : Properties :=
  pairs.foldl (fun p e => p.insert e.1 e.2) empty

/-- The set that a property text declares. No text is refused. -/
def parse (text : String) : Properties :=
  ofList ((logicalLines text.toList).filterMap assignment?)

/-- Whether a key is declared, be it with an empty value. -/
def contains (p : Properties) (key : String) : Bool :=
  (p.get? key).isSome

/-- How many keys are declared. -/
def size (p : Properties) : Nat :=
  p.entries.length

/-- Whether nothing is declared. -/
def isEmpty (p : Properties) : Bool :=
  p.entries.isEmpty

@[simp] theorem get?_empty (key : String) : empty.get? key = none := rfl

theorem find?_declare (key other value : String) (pairs : List (String × String)) :
    find? other (declare key value pairs) =
      if key = other then some value else find? other pairs := by
  induction pairs with
  | nil => simp [declare, find?]
  | cons e rest ih =>
    obtain ⟨k, old⟩ := e
    by_cases hk : k = key
    · subst hk
      by_cases ho : k = other <;> simp [declare, find?, ho]
    · by_cases hlt : key < k
      · simp [declare, find?, hk, hlt]
      · by_cases ho : k = other
        · subst ho
          simp [declare, find?, hk, hlt, Ne.symm hk]
        · simp [declare, find?, hk, hlt, ho, ih]

/-- A declaration gives its key its value and leaves all other keys alone. -/
theorem get?_insert (p : Properties) (key other value : String) :
    (p.insert key value).get? other = if key = other then some value else p.get? other :=
  find?_declare key other value p.entries

end Properties

end Heritage
