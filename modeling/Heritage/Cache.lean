import Heritage.Chain
import Heritage.Failure
import Heritage.FragmentFamily
import Heritage.Table
import Heritage.Text.Summary

/-!
# The cache of fragments

A cache holds what chains resolve to up to one of their places, so that targets that share the
beginning of a chain share its work. An entry belongs to one registration of an extractor, one kind
and one place. Entries are added and never changed or removed, and a failure is never stored.

The kind of fragment that a caller asks for may differ from that of the entry under the key. Then
the entry is of no use to the caller, and it stays.

* `Cache.getOrCompute_of_lookup`: a hit computes nothing and changes no entry;
* `Cache.getOrCompute_of_error`: a failed computation stores nothing of its own;
* `Cache.lookup_store`: what is stored is found again, unless something else was there first.
-/

namespace Heritage

/-- A place in a hierarchy up to which a chain has been resolved. A type is known by the package at
the end of the ladder before it and by the names of the types down to it. -/
inductive Place where
  | defaults
  | package (name : String)
  | type (package : String) (lineage : List String)
  deriving DecidableEq, Repr

/-- How a place is shown. -/
def Place.text : Place → String
  | .defaults => "default"
  | .package name => packageText name
  | .type _ lineage => " > ".intercalate lineage

/-- What an entry of a cache belongs to. -/
structure CacheKey (κ : Type) where
  /-- The number of the registration. Numbers have no bound here, and so they agree with numbers of
  64 bits for up to 2 ^ 64 registrations. -/
  registration : Nat
  kind : κ
  place : Place
  deriving DecidableEq, Repr

/-- How a key is shown. -/
def CacheKey.text {κ : Type} [FragmentFamily κ] (key : CacheKey κ) : String :=
  kindName key.kind ++ "#" ++ toString key.registration ++ "@" ++ key.place.text

/-- Counts of a cache. They have no bound here, and so they agree with counts of 64 bits up to
2 ^ 64 requests. -/
structure CacheStats where
  hits : Nat
  misses : Nat
  entries : Nat
  deriving DecidableEq, Repr

/-- Entries, and how many requests they have answered or failed to answer. Like `CacheStats`, the
counts have no bound. -/
structure Cache (κ : Type) [FragmentFamily κ] where
  entries : Table (CacheKey κ) (AnyFragment κ)
  hits : Nat
  misses : Nat

namespace Cache

variable {κ : Type} [FragmentFamily κ]

/-- The cache without entries that has not been asked yet. -/
def empty : Cache κ := ⟨⟨[]⟩, 0, 0⟩

/-- The counts of a cache. -/
def stats (c : Cache κ) : CacheStats :=
  ⟨c.hits, c.misses, c.entries.entries.length⟩

/-- Whether the cache has no entries. -/
def isEmpty (c : Cache κ) : Bool :=
  c.entries.entries.isEmpty

/-- The cache after one more request that an entry answered. -/
def countHit (c : Cache κ) : Cache κ :=
  { c with hits := c.hits + 1 }

/-- The cache after one more request that no entry answered. -/
def countMiss (c : Cache κ) : Cache κ :=
  { c with misses := c.misses + 1 }

/-- The summary shown for a cache. -/
def summary (c : Cache κ) : String :=
  Text.summaryOfRecord "FragmentCache"
    [("stats", Text.summaryOfRecord "CacheStats"
      [("hits", toString c.stats.hits), ("misses", toString c.stats.misses),
        ("entries", toString c.stats.entries)] true)] false

variable [DecidableEq κ]

/-- The entry under a key. -/
def stored? (c : Cache κ) (key : CacheKey κ) : Option (AnyFragment κ) :=
  c.entries.get? key

/-- Whether there is an entry under a key. -/
def contains (c : Cache κ) (key : CacheKey κ) : Bool :=
  (c.stored? key).isSome

/-- The fragment of kind `k` under a key. -/
def lookup (c : Cache κ) (key : CacheKey κ) (k : κ) : Option (Fragment k) :=
  (c.stored? key).bind (·.as? k)

/-- The cache with an entry under a key, which stays the same if there is one already. -/
def store (c : Cache κ) (key : CacheKey κ) (f : AnyFragment κ) : Cache κ :=
  match c.stored? key with
  | some _ => c
  | none => { c with entries := c.entries.insert key f }

/-- The answer to a request. -/
structure Answer (κ : Type) [FragmentFamily κ] (k : κ) (ρ : Type) where
  outcome : Except Failure (Fragment k)
  cache : Cache κ
  /-- What the computation reported, if it ran. -/
  report : Option ρ

/-- What a computation leaves: its outcome, the cache, which it may have used itself, and a report.
-/
structure Computed (κ : Type) [FragmentFamily κ] (k : κ) (ρ : Type) where
  outcome : Except Failure (Fragment k)
  cache : Cache κ
  report : ρ

/-- Requests the fragment of kind `k` under a key. If it is not there it is computed; a result is
stored unless the computation itself has led to an entry under the key, and then that entry is the
answer if it has the right kind. -/
def getOrCompute {ρ : Type} (c : Cache κ) (key : CacheKey κ) (k : κ)
    (compute : Cache κ → Computed κ k ρ) : Answer κ k ρ :=
  match c.lookup key k with
  | some fragment => ⟨.ok fragment, c.countHit, none⟩
  | none =>
    let computed := compute c.countMiss
    match computed.outcome with
    | .error failure => ⟨.error failure, computed.cache, some computed.report⟩
    | .ok fragment =>
      let cache := computed.cache.store key ⟨k, fragment⟩
      ⟨.ok ((cache.lookup key k).getD fragment), cache, some computed.report⟩

/-! ## What requests do -/

section

variable {ρ : Type} {c : Cache κ} {key : CacheKey κ} {k : κ} {fragment : Fragment k}
  {compute : Cache κ → Computed κ k ρ}

@[simp] theorem stored?_countHit (other : CacheKey κ) :
    c.countHit.stored? other = c.stored? other := rfl

@[simp] theorem stored?_countMiss (other : CacheKey κ) :
    c.countMiss.stored? other = c.stored? other := rfl

theorem stored?_store (f : AnyFragment κ) (other : CacheKey κ) :
    (c.store key f).stored? other =
      if key = other then some ((c.stored? key).getD f) else c.stored? other := by
  unfold store
  cases h : c.stored? key with
  | some old =>
    by_cases hk : key = other
    · subst hk
      simp [h]
    · simp [hk]
  | none =>
    simp only [stored?, Table.get?_insert, Option.getD_none]

theorem lookup_store (f : AnyFragment κ) :
    (c.store key f).lookup key k = ((c.stored? key).getD f).as? k := by
  simp [lookup, stored?_store]

theorem getOrCompute_of_lookup (h : c.lookup key k = some fragment) :
    c.getOrCompute key k compute = ⟨.ok fragment, c.countHit, none⟩ := by
  simp [getOrCompute, h]

theorem getOrCompute_of_error {failure : Failure} (h : c.lookup key k = none)
    (hError : (compute c.countMiss).outcome = .error failure) :
    c.getOrCompute key k compute =
      ⟨.error failure, (compute c.countMiss).cache, some (compute c.countMiss).report⟩ := by
  simp [getOrCompute, h, hError]

theorem getOrCompute_of_ok (h : c.lookup key k = none)
    (hOk : (compute c.countMiss).outcome = .ok fragment) :
    c.getOrCompute key k compute =
      ⟨.ok ((((compute c.countMiss).cache.stored? key).getD ⟨k, fragment⟩).as? k |>.getD fragment),
        (compute c.countMiss).cache.store key ⟨k, fragment⟩,
        some (compute c.countMiss).report⟩ := by
  simp [getOrCompute, h, hOk, lookup_store]

end

end Cache

end Heritage
