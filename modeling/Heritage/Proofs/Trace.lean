import Heritage.Proofs.Fold
import Heritage.Proofs.Stage

/-!
# Traces of walks

`Registration.Trace` says what a walk does at each stage, one rule for each case: the entry is
known, or fetching fails, or what has been fetched is stored. Every law of walks is an induction on
traces; `walk_trace` is where the walk itself is looked at.

The laws here hold for any cache whose entries have the kind that their key says.

* `Trace.stored?_mono`, `Trace.stored?_of_ne`: a walk changes and removes no entry, and touches no
  key but its own;
* `Trace.outcome_eq_error_iff`: a walk fails as the first node that is not known and fails;
* `Trace.fetched_eq`: a walk fetches what is not known, each node once and in order, up to the
  first failure;
* `Trace.contains_iff`: a walk stores exactly what was missing before the failing node.
-/

namespace Heritage

variable {κ : Type} [FragmentFamily κ] [DecidableEq κ]

/-! ## Caches with entries of the right kind -/

/-- Every entry has the kind that its key says. -/
def Cache.WellKinded (cache : Cache κ) : Prop :=
  ∀ key entry, cache.stored? key = some entry → entry.kind = key.kind

namespace Cache

theorem wellKinded_empty : (empty : Cache κ).WellKinded := by
  intro key entry h
  cases h

theorem contains_eq_true_iff {cache : Cache κ} {key : CacheKey κ} :
    cache.contains key = true ↔ ∃ entry, cache.stored? key = some entry :=
  Option.isSome_iff_exists

theorem contains_eq_false_iff {cache : Cache κ} {key : CacheKey κ} :
    cache.contains key = false ↔ cache.stored? key = none :=
  Option.isSome_eq_false_iff.trans Option.isNone_iff_eq_none

theorem contains_of_stored {cache : Cache κ} {key : CacheKey κ} {entry : AnyFragment κ}
    (h : cache.stored? key = some entry) : cache.contains key = true :=
  contains_eq_true_iff.mpr ⟨entry, h⟩

theorem contains_congr {cache cache' : Cache κ} {key : CacheKey κ}
    (h : cache.stored? key = cache'.stored? key) : cache.contains key = cache'.contains key := by
  rw [contains, contains, h]

theorem stored?_store_of_ne {cache : Cache κ} {key other : CacheKey κ} (f : AnyFragment κ)
    (h : key ≠ other) : (cache.store key f).stored? other = cache.stored? other := by
  rw [stored?_store, if_neg h]

theorem stored?_store_self {cache : Cache κ} {key : CacheKey κ} (f : AnyFragment κ)
    (h : cache.stored? key = none) : (cache.store key f).stored? key = some f := by
  rw [stored?_store, if_pos rfl, h]
  rfl

theorem contains_store_self (cache : Cache κ) (key : CacheKey κ) (f : AnyFragment κ) :
    (cache.store key f).contains key = true := by
  rw [contains, stored?_store, if_pos rfl]
  rfl

theorem stored?_store_mono {cache : Cache κ} {key other : CacheKey κ} {f entry : AnyFragment κ}
    (h : cache.stored? other = some entry) : (cache.store key f).stored? other = some entry := by
  rw [stored?_store]
  split
  · rename_i hKey
    rw [hKey, h]
    rfl
  · exact h

theorem WellKinded.store {cache : Cache κ} (h : cache.WellKinded) {key : CacheKey κ}
    {f : AnyFragment κ} (hKind : f.kind = key.kind) : (cache.store key f).WellKinded := by
  intro other entry hEntry
  by_cases hKey : key = other
  · subst hKey
    rw [stored?_store, if_pos rfl] at hEntry
    cases hOld : cache.stored? key with
    | none =>
      rw [hOld] at hEntry
      obtain rfl := Option.some.inj hEntry
      exact hKind
    | some old =>
      rw [hOld] at hEntry
      obtain rfl := Option.some.inj hEntry
      exact h key old hOld
  · rw [stored?_store_of_ne f hKey] at hEntry
    exact h other entry hEntry

end Cache

namespace Registration

variable {r : Registration κ} {m : Member} {current : Fragment r.kind} {cache : Cache κ}
  {stages : List (Place × Node)} {w : Walk κ r.kind}

omit [DecidableEq κ] in
theorem key_injective {place place' : Place} (h : r.key place = r.key place') : place = place' :=
  congrArg CacheKey.place h

theorem contains_of_some_eq {place : Place} (h : cache.contains (r.key place) = true)
    {above : Place} (hAbove : some place = some above) : cache.contains (r.key above) = true := by
  obtain rfl := Option.some.inj hAbove
  exact h

/-- Behind a place that is known, a missing one stands right below it. -/
theorem parent_of_missing {prior : Option Place} {place : Place}
    (hLinked : some place = prior ∨ place.parent = prior)
    (hPrior : ∀ {above}, prior = some above → cache.contains (r.key above))
    (hMissing : cache.stored? (r.key place) = none) : place.parent = prior := by
  rcases hLinked with hSame | hParent
  · have hKnown := hPrior hSame.symm
    rw [Cache.contains_eq_false_iff.mpr hMissing] at hKnown
    cases hKnown
  · exact hParent

/-! ## Traces -/

/-- `r.Trace m current cache stages w`: from `current`, what the chain resolves to so far, the walk
`w` goes on through `stages` to the member `m`. -/
inductive Trace (r : Registration κ) (m : Member) :
    Fragment r.kind → Cache κ → List (Place × Node) → Walk κ r.kind → Prop
  | arrived (current : Fragment r.kind) (cache : Cache κ) :
      Trace r m current cache []
        ⟨r.extractor.step current (.member m), cache, [.member m]⟩
  | known {current next : Fragment r.kind} {cache : Cache κ} {place : Place} {node : Node}
      {rest : List (Place × Node)} {w : Walk κ r.kind}
      (hStored : cache.stored? (r.key place) = some ⟨r.kind, next⟩)
      (hRest : Trace r m next cache.countHit rest w) :
      Trace r m current cache ((place, node) :: rest) w
  | failed {current : Fragment r.kind} {cache : Cache κ} {place : Place} {node : Node}
      {rest : List (Place × Node)} {failure : Failure}
      (hMissing : cache.stored? (r.key place) = none)
      (hStep : r.extractor.step current node = .error failure) :
      Trace r m current cache ((place, node) :: rest) ⟨.error failure, cache.countMiss, [node]⟩
  | fetched {current next : Fragment r.kind} {cache : Cache κ} {place : Place} {node : Node}
      {rest : List (Place × Node)} {w : Walk κ r.kind}
      (hMissing : cache.stored? (r.key place) = none)
      (hStep : r.extractor.step current node = .ok next)
      (hRest : Trace r m next (cache.countMiss.store (r.key place) ⟨r.kind, next⟩) rest w) :
      Trace r m current cache ((place, node) :: rest) { w with fetched := node :: w.fetched }

theorem walkFrom_trace (hKinds : cache.WellKinded) :
    r.Trace m current cache stages (r.walkFrom m current cache stages) := by
  induction stages generalizing current cache with
  | nil => exact .arrived current cache
  | cons stage rest ih =>
    obtain ⟨place, node⟩ := stage
    cases hStored : cache.stored? (r.key place) with
    | some entry =>
      obtain ⟨kind, next⟩ := entry
      obtain rfl : kind = r.kind := hKinds _ _ hStored
      have hLookup : cache.lookup (r.key place) r.kind = some next := by
        simp [Cache.lookup, hStored]
      have hRequest : r.walkFrom m current cache ((place, node) :: rest) =
          r.walkFrom m next cache.countHit rest := by
        rw [walkFrom, request, Cache.getOrCompute_of_lookup hLookup]
        rfl
      rw [hRequest]
      have hCounted : cache.countHit.WellKinded := hKinds
      exact .known hStored (ih hCounted)
    | none =>
      have hLookup : cache.lookup (r.key place) r.kind = none := by
        simp [Cache.lookup, hStored]
      cases hStep : r.extractor.step current node with
      | error failure =>
        have hRequest : r.walkFrom m current cache ((place, node) :: rest) =
            ⟨.error failure, cache.countMiss, [node]⟩ := by
          rw [walkFrom, request, Cache.getOrCompute_of_error hLookup hStep]
          rfl
        rw [hRequest]
        exact .failed hStored hStep
      | ok next =>
        have hNew : cache.countMiss.stored? (r.key place) = none := hStored
        have hRequest : r.walkFrom m current cache ((place, node) :: rest) =
            let w := r.walkFrom m next
              (cache.countMiss.store (r.key place) ⟨r.kind, next⟩) rest
            { w with fetched := node :: w.fetched } := by
          rw [walkFrom, request, Cache.getOrCompute_of_ok hLookup hStep]
          simp only [hNew, Option.getD_none, AnyFragment.as?_self, Option.getD_some]
          rfl
        rw [hRequest]
        have hCounted : cache.countMiss.WellKinded := hKinds
        exact .fetched hStored hStep (ih (hCounted.store rfl))

/-- A walk passes the stages of its chain and ends at the member. -/
theorem walk_trace (c : Chain) (hKinds : cache.WellKinded) :
    r.Trace c.member r.extractor.initial cache c.stages (r.walk c cache) := by
  have hWalk : r.walk c cache = r.walkFrom c.member r.extractor.initial cache c.stages := rfl
  rw [hWalk]
  exact walkFrom_trace hKinds

namespace Trace

variable (h : r.Trace m current cache stages w)

include h

/-! ## What happens to the cache -/

theorem wellKinded (hKinds : cache.WellKinded) : w.cache.WellKinded := by
  induction h with
  | arrived => exact hKinds
  | known hStored hRest ih => exact ih hKinds
  | failed hMissing hStep => exact hKinds
  | @fetched current next cache _ _ _ _ hMissing hStep hRest ih =>
    have hCounted : cache.countMiss.WellKinded := hKinds
    exact ih (hCounted.store rfl)

theorem stored?_mono {key : CacheKey κ} {entry : AnyFragment κ}
    (hEntry : cache.stored? key = some entry) : w.cache.stored? key = some entry := by
  induction h with
  | arrived => exact hEntry
  | known hStored hRest ih => exact ih hEntry
  | failed hMissing hStep => exact hEntry
  | fetched hMissing hStep hRest ih => exact ih (Cache.stored?_store_mono hEntry)

theorem stored?_of_ne {key : CacheKey κ} (hKey : ∀ place, r.key place ≠ key) :
    w.cache.stored? key = cache.stored? key := by
  induction h with
  | arrived => rfl
  | known hStored hRest ih => exact ih
  | failed hMissing hStep => rfl
  | fetched hMissing hStep hRest ih =>
    exact ih.trans (Cache.stored?_store_of_ne _ (hKey _))

end Trace

/-! ## What a walk does at each node -/

/-- The failure that ends a walk at a node: there is no entry for its place, and fetching it fails.
-/
def stop? (r : Registration κ) (cache : Cache κ) (visit : Option Place × Node) : Option Failure :=
  if visit.1.any fun place => cache.contains (r.key place) then none
  else r.extractor.failure? visit.2

theorem stop?_of_stored {place : Place} {node : Node} {entry : AnyFragment κ}
    (h : cache.stored? (r.key place) = some entry) : r.stop? cache (some place, node) = none := by
  simp [stop?, Cache.contains_of_stored h]

theorem stop?_of_missing {place : Place} {node : Node}
    (h : cache.stored? (r.key place) = none) :
    r.stop? cache (some place, node) = r.extractor.failure? node := by
  simp [stop?, Cache.contains_eq_false_iff.mpr h]

theorem stop?_of_failed {place : Place} {node : Node} {failure : Failure}
    (hMissing : cache.stored? (r.key place) = none)
    (hStep : r.extractor.step current node = .error failure) :
    r.stop? cache (some place, node) = some failure :=
  (stop?_of_missing hMissing).trans (Extractor.step_eq_error_iff.mp hStep)

theorem stop?_of_fetched {place : Place} {node : Node} {next : Fragment r.kind}
    (hMissing : cache.stored? (r.key place) = none)
    (hStep : r.extractor.step current node = .ok next) :
    r.stop? cache (some place, node) = none :=
  (stop?_of_missing hMissing).trans (Extractor.failure?_eq_none_of_step hStep)

/-- Where walks stop follows from which places are known. -/
theorem stop?_congr {cache cache' : Cache κ}
    (h : ∀ place, cache.stored? (r.key place) = cache'.stored? (r.key place))
    (visit : Option Place × Node) : r.stop? cache visit = r.stop? cache' visit := by
  obtain ⟨place?, node⟩ := visit
  cases place? with
  | none => rfl
  | some place => simp only [stop?, Option.any_some, Cache.contains_congr (h place)]

theorem contains_store_of_ne (cache : Cache κ) {place place' : Place} (f : AnyFragment κ)
    (h : place ≠ place') :
    (cache.store (r.key place) f).contains (r.key place') = cache.contains (r.key place') :=
  Cache.contains_congr (Cache.stored?_store_of_ne f fun hKey => h (key_injective hKey))

/-- Storing what has been fetched for a node stops no walk behind it and lets none go on. -/
theorem stop?_store (cache : Cache κ) {place : Place} {node : Node} {rest : List (Place × Node)}
    (hNodes : OneNodeEach ((place, node) :: rest)) (hFetch : r.extractor.failure? node = none)
    (f : AnyFragment κ) :
    ∀ visit ∈ visitsOf m rest,
      r.stop? (cache.store (r.key place) f) visit = r.stop? cache visit := by
  intro visit hVisit
  have hNode := hNodes.node_of_mem_visitsOf hVisit
  obtain ⟨place?, node'⟩ := visit
  cases place? with
  | none => rfl
  | some place' =>
    by_cases hPlace : place' = place
    · obtain rfl : node' = node := hNode (by rw [hPlace])
      unfold stop?
      rw [hFetch]
      simp
    · simp only [stop?, Option.any_some, contains_store_of_ne cache f (Ne.symm hPlace)]

/-- Storing an entry for a node takes the node away from what is missing behind it. -/
theorem filter_missing_store (cache : Cache κ) {place : Place} {node : Node}
    {rest : List (Place × Node)} (hNodes : OneNodeEach ((place, node) :: rest))
    (f : AnyFragment κ) :
    (rest.filter fun stage => !(cache.store (r.key place) f).contains (r.key stage.1)) =
      (rest.filter fun stage => !cache.contains (r.key stage.1)).filter
        fun stage => !stage == (place, node) := by
  rw [List.filter_filter]
  refine List.filter_congr fun stage hStage => ?_
  by_cases hPlace : stage.1 = place
  · have hSame : stage = (place, node) :=
      hNodes stage (List.mem_cons_of_mem _ hStage) (place, node) List.mem_cons_self hPlace
    simp [hSame, Cache.contains_store_self]
  · have hOther : stage ≠ (place, node) := fun hEq => hPlace (by rw [hEq])
    simp [hOther, contains_store_of_ne cache f (Ne.symm hPlace)]

namespace Trace

variable (h : r.Trace m current cache stages w)

include h

/-! ## Outcome, fetches and entries -/

/-- A walk fails as the first of the nodes that stop it, and succeeds if there is none. -/
theorem outcome_eq_error_iff (hNodes : OneNodeEach stages)
    {failure : Failure} :
    w.outcome = .error failure ↔
      (visitsOf m stages).findSome? (r.stop? cache) = some failure := by
  induction h with
  | arrived current cache =>
    have hStop : r.stop? cache (none, .member m) = r.extractor.failure? (.member m) := rfl
    rw [Extractor.step_eq_error_iff, visitsOf, List.map_nil, List.nil_append,
      List.findSome?_singleton, hStop]
  | @known current next cache place node rest w hStored hRest ih =>
    have hStop : r.stop? cache (some place, node) = none := stop?_of_stored hStored
    rw [visitsOf_cons, List.findSome?_cons, hStop]
    exact ih hNodes.tail
  | @failed current cache place node rest other hMissing hStep =>
    have hStop : r.stop? cache (some place, node) = some other := stop?_of_failed hMissing hStep
    rw [visitsOf_cons, List.findSome?_cons, hStop]
    simp
  | @fetched current next cache place node rest w hMissing hStep hRest ih =>
    have hFetch := Extractor.failure?_eq_none_of_step hStep
    have hStop : r.stop? cache (some place, node) = none := stop?_of_fetched hMissing hStep
    have hSame :=
      findSome?_congr (stop?_store (m := m) cache.countMiss hNodes hFetch ⟨r.kind, next⟩)
    rw [visitsOf_cons, List.findSome?_cons, hStop]
    exact (ih hNodes.tail).trans (by rw [hSame]; rfl)

/-- A walk fetches the nodes whose places are missing, each of them once and in their order, and
then the member; the first failure ends it. -/
theorem fetched_eq (hNodes : OneNodeEach stages) :
    w.fetched = through r.extractor.fails
      (((stages.filter fun stage => !cache.contains (r.key stage.1)).eraseDups).map Prod.snd ++
        [.member m]) := by
  induction h with
  | arrived current cache => simp [through]
  | @known current next cache place node rest w hStored hRest ih =>
    have hKnown : cache.contains (r.key place) = true := Cache.contains_of_stored hStored
    rw [List.filter_cons_of_neg (by simp [hKnown])]
    exact ih hNodes.tail
  | @failed current cache place node rest other hMissing hStep =>
    have hNew : cache.contains (r.key place) = false := Cache.contains_eq_false_iff.mpr hMissing
    have hFails : r.extractor.fails node = true := by
      rw [Extractor.fails, Extractor.step_eq_error_iff.mp hStep]
      rfl
    rw [List.filter_cons_of_pos (by simp [hNew]), List.eraseDups_cons, List.map_cons,
      List.cons_append, through_cons_of_pos hFails]
  | @fetched current next cache place node rest w hMissing hStep hRest ih =>
    have hNew : cache.contains (r.key place) = false := Cache.contains_eq_false_iff.mpr hMissing
    have hFetch := Extractor.failure?_eq_none_of_step hStep
    have hPasses : r.extractor.fails node = false := by
      rw [Extractor.fails, hFetch]
      rfl
    have hMissingBehind := filter_missing_store (r := r) cache.countMiss hNodes
      ⟨r.kind, next⟩
    rw [List.filter_cons_of_pos (by simp [hNew]), List.eraseDups_cons, List.map_cons,
      List.cons_append, through, hPasses, ih hNodes.tail, hMissingBehind]
    rfl

/-- A walk stores what was missing before the first node that stops it, and nothing else. -/
theorem contains_iff (hNodes : OneNodeEach stages) {place : Place} :
    w.cache.contains (r.key place) = true ↔ cache.contains (r.key place) = true ∨
      some place ∈ ((visitsOf m stages).takeWhile fun visit =>
        (r.stop? cache visit).isNone).map Prod.fst := by
  induction h with
  | arrived current cache =>
    have hNone : some place ∉ (([(none, Node.member m)] : List (Option Place × Node)).takeWhile
        fun visit => (r.stop? cache visit).isNone).map Prod.fst := by
      intro hMem
      obtain ⟨visit, hVisit, hPlace⟩ := List.mem_map.mp hMem
      have := List.mem_singleton.mp ((List.takeWhile_sublist _).subset hVisit)
      rw [this] at hPlace
      cases hPlace
    exact ⟨Or.inl, fun hOr => hOr.resolve_right hNone⟩
  | @known current next cache first node rest w hStored hRest ih =>
    have hStop : r.stop? cache (some first, node) = none := stop?_of_stored hStored
    have hKnown : cache.contains (r.key first) = true := Cache.contains_of_stored hStored
    rw [visitsOf_cons, List.takeWhile_cons_of_pos (by simp [hStop]), List.map_cons, List.mem_cons]
    refine (ih hNodes.tail).trans ⟨?_, ?_⟩
    · exact fun hOr => hOr.imp_right Or.inr
    · rintro (hOld | hFirst | hLater)
      · exact Or.inl hOld
      · rw [Option.some.inj hFirst]
        exact Or.inl hKnown
      · exact Or.inr hLater
  | @failed current cache first node rest other hMissing hStep =>
    have hStop : r.stop? cache (some first, node) = some other := stop?_of_failed hMissing hStep
    rw [visitsOf_cons, List.takeWhile_cons_of_neg (by simp [hStop])]
    simp [Cache.contains]
  | @fetched current next cache first node rest w hMissing hStep hRest ih =>
    have hFetch := Extractor.failure?_eq_none_of_step hStep
    have hStop : r.stop? cache (some first, node) = none := stop?_of_fetched hMissing hStep
    have hSame := takeWhile_congr fun visit hVisit => congrArg Option.isNone <|
      stop?_store (m := m) cache.countMiss hNodes hFetch ⟨r.kind, next⟩ visit hVisit
    rw [visitsOf_cons, List.takeWhile_cons_of_pos (by simp [hStop]), List.map_cons, List.mem_cons,
      ih hNodes.tail, hSame]
    by_cases hPlace : first = place
    · subst hPlace
      simp [Cache.contains_store_self]
    · have hContains := contains_store_of_ne (r := r) cache.countMiss ⟨r.kind, next⟩ hPlace
      have hFirst : some place ≠ some first := fun hEq => hPlace (Option.some.inj hEq).symm
      rw [hContains]
      simp only [hFirst, false_or]
      rfl

end Trace

end Registration

end Heritage
