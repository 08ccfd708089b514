import Heritage.Cache

/-!
# Computations that use the cache

The computation of a missing fragment may itself request fragments from the cache, also the very
fragment that is being computed. A computation is described by what it requests, one request after
another, each depending on the answers before it, and by its outcome. Running it on a cache records
every answer.
-/

namespace Heritage

/-- A computation of a fragment of kind `k`. -/
inductive Computation (κ : Type) [FragmentFamily κ] : κ → Type where
  /-- Ends with an outcome. -/
  | done {k : κ} (outcome : Except Failure (Fragment k)) : Computation κ k
  /-- Requests a fragment of kind `asked`, computed by `inner` if it is missing, and goes on with
  the answer. -/
  | request {k : κ} (key : CacheKey κ) (asked : κ) (inner : Computation κ asked)
      (next : Except Failure (Fragment asked) → Computation κ k) : Computation κ k

/-- The record of one answer, with the records of the requests that its computation made if it ran.
-/
inductive AnswerRecord (κ : Type) [FragmentFamily κ] where
  | mk (kind : κ) (outcome : Except Failure (Fragment kind))
      (inner : Option (List (AnswerRecord κ)))

namespace Computation

variable {κ : Type} [FragmentFamily κ] [DecidableEq κ]

/-- Runs a computation on a cache. It reports the answers to its requests, in order. -/
def run {k : κ} : Computation κ k → Cache κ → Cache.Computed κ k (List (AnswerRecord κ))
  | .done outcome, c => ⟨outcome, c, []⟩
  | .request key asked inner next, c =>
    let answer := c.getOrCompute key asked inner.run
    let rest := (next answer.outcome).run answer.cache
    ⟨rest.outcome, rest.cache, .mk asked answer.outcome answer.report :: rest.report⟩

/-- The computation that makes one request and hands on nothing of its answer. -/
def thenDone {k : κ} (key : CacheKey κ) (asked : κ) (inner : Computation κ asked)
    (outcome : Except Failure (Fragment k)) : Computation κ k :=
  .request key asked inner fun _ => .done outcome

end Computation

end Heritage
