/-!
# Tables

A table pairs keys with values, in the order in which the keys first came. Writing to a key that is
there replaces its value in place. Reading through `get?` is all that a table means:

* `get?_insert`: a written key holds what was written, and every other key what it held before.
-/

namespace Heritage

/-- Keys with their values; the keys are pairwise distinct when the table is made by `insert`. -/
structure Table (κ α : Type) where
  entries : List (κ × α)
  deriving DecidableEq, Repr

namespace Table

variable {κ α : Type} [DecidableEq κ]

/-- The table without keys. -/
def empty : Table κ α := ⟨[]⟩

/-- The value of `key` in a list of pairs, the first one counting. -/
def find? (key : κ) : List (κ × α) → Option α
  | [] => none
  | (k, value) :: rest => if k = key then some value else find? key rest

/-- The value of a key. -/
def get? (t : Table κ α) (key : κ) : Option α :=
  find? key t.entries

/-- The pairs with the value of `key` replaced, or a new pair behind them. -/
def put (key : κ) (value : α) : List (κ × α) → List (κ × α)
  | [] => [(key, value)]
  | (k, old) :: rest => if k = key then (k, value) :: rest else (k, old) :: put key value rest

/-- The table with `value` written to `key`. -/
def insert (t : Table κ α) (key : κ) (value : α) : Table κ α :=
  ⟨put key value t.entries⟩

/-- The table that results from writing pairs one after another. -/
def ofList (pairs : List (κ × α)) : Table κ α :=
  pairs.foldl (fun t p => t.insert p.1 p.2) empty

@[simp] theorem get?_empty (key : κ) : (empty : Table κ α).get? key = none := rfl

theorem find?_put (key other : κ) (value : α) (pairs : List (κ × α)) :
    find? other (put key value pairs) = if key = other then some value else find? other pairs := by
  induction pairs with
  | nil => simp [put, find?]
  | cons p rest ih =>
    obtain ⟨k, old⟩ := p
    by_cases hk : k = key
    · subst hk
      by_cases ho : k = other <;> simp [put, find?, ho]
    · by_cases ho : k = other
      · subst ho
        simp [put, find?, hk, Ne.symm hk]
      · simp [put, find?, hk, ho, ih]

theorem get?_insert (t : Table κ α) (key other : κ) (value : α) :
    (t.insert key value).get? other = if key = other then some value else t.get? other :=
  find?_put key other value t.entries

end Table

end Heritage
