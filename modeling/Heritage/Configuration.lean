import Heritage.Failure
import Heritage.FragmentFamily
import Heritage.Text.Summary

/-!
# Configurations

A configuration holds, for one target, the outcome of every kind that was resolved: a fragment or a
failure. A kind that failed does not keep the others from being read.
-/

namespace Heritage

/-- The outcome of one kind. -/
structure ConfigurationEntry (κ : Type) [FragmentFamily κ] where
  kind : κ
  outcome : Except Failure (Fragment kind)

/-- The outcomes for one target, in the order in which the kinds were registered. -/
structure Configuration (κ : Type) [FragmentFamily κ] where
  /-- How the target is shown. -/
  target : String
  entries : List (ConfigurationEntry κ)

namespace Configuration

variable {κ : Type} [FragmentFamily κ]

/-- The kinds that were resolved. -/
def kinds (c : Configuration κ) : List κ :=
  c.entries.map (·.kind)

/-- The failure of an entry that has one. -/
def failure? (e : ConfigurationEntry κ) : Option (κ × Failure) :=
  match e.outcome with
  | .ok _ => none
  | .error failure => some (e.kind, failure)

/-- The kinds that failed, with their failures. -/
def failures (c : Configuration κ) : List (κ × Failure) :=
  c.entries.filterMap failure?

/-- Whether no kind failed. -/
def isComplete (c : Configuration κ) : Bool :=
  c.failures.isEmpty

/-- How the outcome of an entry is shown. -/
def status (e : ConfigurationEntry κ) : String :=
  match e.outcome with
  | .ok _ => "resolved"
  | .error failure => "failed: " ++ failure.message

/-- The summary shown for a configuration. -/
def summary (c : Configuration κ) : String :=
  let shown := c.entries.map fun e =>
    Text.quoted (kindName e.kind) ++ ": " ++ Text.quoted (status e)
  "\x7b" ++ ", ".intercalate shown ++ "\x7d for " ++ c.target

variable [DecidableEq κ]

/-- The outcome of kind `k` in a list of entries. -/
def find? (k : κ) : List (ConfigurationEntry κ) → Option (Except Failure (Fragment k))
  | [] => none
  | e :: rest => if h : e.kind = k then some (h ▸ e.outcome) else find? k rest

/-- Whether a kind was resolved, be it with a failure. -/
def contains (c : Configuration κ) (k : κ) : Bool :=
  (find? k c.entries).isSome

/-- The fragment of a kind: the failure of its own if it failed, and another one if it was not
resolved. -/
def get (c : Configuration κ) (k : κ) : Except Failure (Fragment k) :=
  (find? k c.entries).getD (.error (.noSuchKind (kindName k)))

end Configuration

end Heritage
