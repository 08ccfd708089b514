/-!
# List settings

A field that holds a list can be left undeclared, be declared to replace what is inherited, or be
declared to extend it. A declared empty list replaces what is inherited by nothing, which differs
from no declaration at all.

Which entries equal each other is up to their type. An entry need not even equal itself, as a float
that is not a number does not.

* `ListSetting.overlay_unset` and `ListSetting.overlay_replace`: an undeclared list changes nothing,
  and a replacing one leaves nothing of what it is laid over.
-/

namespace Heritage

/-- What one place, or a chain of places, says about a list. -/
inductive ListSetting (α : Type) where
  | unset
  | replace (items : List α)
  | extend (items : List α)
  deriving DecidableEq, Repr

/-- How a declared list that has entries combines with inherited ones. -/
inductive ListMode where
  | replace
  | accumulate
  deriving DecidableEq, Repr

namespace ListSetting

variable {α : Type}

/-- The setting that a declaration stands for. A declared empty list always replaces. -/
def declared (mode : ListMode) : Option (List α) → ListSetting α
  | none => .unset
  | some [] => .replace []
  | some items =>
    match mode with
    | .replace => .replace items
    | .accumulate => .extend items

/-- The entries of a setting. -/
def items : ListSetting α → List α
  | .unset => []
  | .replace items => items
  | .extend items => items

/-- Whether the list was declared nowhere. -/
def isUnset : ListSetting α → Bool
  | .unset => true
  | _ => false

variable [BEq α]

/-- Entries with one more behind them, unless one of them equals it. -/
def addEntry (kept : List α) (entry : α) : List α :=
  if kept.any (· == entry) then kept else kept ++ [entry]

/-- The entries of a list, of which each is left out that one kept before it equals. -/
def firstEntries (entries : List α) : List α :=
  entries.foldl addEntry []

/-- The setting `child` laid over `parent`. Entries that are appended are kept only where they come
first. -/
def overlay (parent child : ListSetting α) : ListSetting α :=
  match parent, child with
  | parent, .unset => parent
  | _, .replace items => .replace items
  | .unset, .extend items => .extend (firstEntries items)
  | .replace inherited, .extend items => .replace (firstEntries (inherited ++ items))
  | .extend inherited, .extend items => .extend (firstEntries (inherited ++ items))

@[simp] theorem overlay_unset (parent : ListSetting α) : parent.overlay .unset = parent := by
  cases parent <;> rfl

@[simp] theorem overlay_replace (parent : ListSetting α) (items : List α) :
    parent.overlay (.replace items) = .replace items := by
  cases parent <;> rfl

end ListSetting

end Heritage
