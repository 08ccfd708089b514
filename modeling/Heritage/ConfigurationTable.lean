import Heritage.Configuration
import Heritage.Table

/-!
# Configurations as tables

The outcomes of a configuration can be kept in one table, in which the fragments of all kinds have
the same type. Whoever asks for a fragment then has to take what is there for a fragment of the kind
that was asked for. What is none is treated as if nothing were there.

* `ConfigurationTable.getShared_eq_get`: whoever looks at a fragment and whoever is handed it get
  the same.
-/

namespace Heritage

/-- Kinds in the order of their registration, and a table of their outcomes. -/
structure ConfigurationTable (κ : Type) [FragmentFamily κ] where
  kinds : List κ
  outcomes : Table κ (Except Failure (AnyFragment κ))

variable {κ : Type} [FragmentFamily κ]

/-- An entry whose outcome does not show the kind of its fragment. -/
def ConfigurationEntry.erased (e : ConfigurationEntry κ) : κ × Except Failure (AnyFragment κ) :=
  (e.kind, e.outcome.map (AnyFragment.mk e.kind))

variable [DecidableEq κ]

namespace ConfigurationTable

/-- The table of outcomes that come one after another; of two for one kind the second one counts. -/
def ofOutcomes (outcomes : List (κ × Except Failure (AnyFragment κ))) : ConfigurationTable κ :=
  ⟨outcomes.map Prod.fst, .ofList outcomes⟩

/-- The fragment of a kind, which stays in the table. -/
def get (t : ConfigurationTable κ) (k : κ) : Except Failure (Fragment k) :=
  match t.outcomes.get? k with
  | some (.ok f) =>
    match f.as? k with
    | some fragment => .ok fragment
    | none => .error (.noSuchKind (kindName k))
  | some (.error failure) => .error failure
  | none => .error (.noSuchKind (kindName k))

/-- The fragment of a kind, which is handed over. What would be handed over is given back if it is
of another kind. -/
def getShared (t : ConfigurationTable κ) (k : κ) : Except Failure (Fragment k) :=
  match t.outcomes.get? k with
  | some (.ok f) => (f.handOver k).mapError fun _ => .noSuchKind (kindName k)
  | some (.error failure) => .error failure
  | none => .error (.noSuchKind (kindName k))

theorem getShared_eq_get (t : ConfigurationTable κ) (k : κ) : t.getShared k = t.get k := by
  unfold getShared get
  cases hOutcome : t.outcomes.get? k with
  | none => rfl
  | some outcome =>
    cases outcome with
    | error failure => rfl
    | ok f =>
      cases hFragment : f.as? k with
      | none =>
        simp only [AnyFragment.handOver_of_as?_none hFragment, hFragment]
        rfl
      | some fragment =>
        simp only [AnyFragment.handOver_of_as? hFragment, hFragment]
        rfl

def contains (t : ConfigurationTable κ) (k : κ) : Bool :=
  (t.outcomes.get? k).isSome

def failure? (t : ConfigurationTable κ) (k : κ) : Option (κ × Failure) :=
  match t.outcomes.get? k with
  | some (.error failure) => some (k, failure)
  | _ => none

def failures (t : ConfigurationTable κ) : List (κ × Failure) :=
  t.kinds.filterMap t.failure?

def isComplete (t : ConfigurationTable κ) : Bool :=
  t.failures.isEmpty

end ConfigurationTable

def Configuration.table (c : Configuration κ) : ConfigurationTable κ :=
  .ofOutcomes (c.entries.map (·.erased))

end Heritage
