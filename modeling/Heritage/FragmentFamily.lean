/-!
# Families of fragments

Configuration comes in kinds, each with a type of fragments of its own. Everything that handles
several kinds at once is written for an arbitrary family of kinds.
-/

namespace Heritage

/-- Kinds of configuration, their fragments, and the names that messages show. -/
class FragmentFamily (κ : Type) where
  Fragment : κ → Type
  name : κ → String

/-- The fragments of a kind. -/
abbrev Fragment {κ : Type} [FragmentFamily κ] (k : κ) : Type :=
  FragmentFamily.Fragment k

/-- The name of a kind. -/
def kindName {κ : Type} [FragmentFamily κ] (k : κ) : String :=
  FragmentFamily.name k

/-- A fragment together with its kind. -/
structure AnyFragment (κ : Type) [FragmentFamily κ] where
  kind : κ
  fragment : Fragment kind

namespace AnyFragment

variable {κ : Type} [FragmentFamily κ] [DecidableEq κ]

/-- The fragment, if it is one of kind `k`. -/
def as? (f : AnyFragment κ) (k : κ) : Option (Fragment k) :=
  if h : f.kind = k then some (h ▸ f.fragment) else none

@[simp] theorem as?_self (k : κ) (x : Fragment k) : (AnyFragment.mk k x).as? k = some x := by
  simp [as?]

/-- The fragment, handed over if it is one of kind `k`, and given back if it is not. -/
def handOver (f : AnyFragment κ) (k : κ) : Except (AnyFragment κ) (Fragment k) :=
  if h : f.kind = k then .ok (h ▸ f.fragment) else .error f

theorem handOver_of_as? {f : AnyFragment κ} {k : κ} {x : Fragment k} (h : f.as? k = some x) :
    f.handOver k = .ok x := by
  unfold as? at h
  unfold handOver
  split at h
  · rename_i hKind
    rw [dif_pos hKind, Option.some.inj h]
  · cases h

theorem handOver_of_as?_none {f : AnyFragment κ} {k : κ} (h : f.as? k = none) :
    f.handOver k = .error f := by
  unfold as? at h
  split at h
  · cases h
  · rename_i hKind
    exact dif_neg hKind

end AnyFragment

end Heritage
