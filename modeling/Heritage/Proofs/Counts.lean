import Heritage.Proofs.TableKeys
import Heritage.Proofs.Tour

/-!
# Counts of a cache

Every request of a walk is answered by an entry or not. What is not answered leads to a new entry,
but for the request of a node that cannot be fetched, which ends the walk above its member.

* `Trace.stopsAbove_eq`: when that happens;
* `Trace.misses_eq`: misses are new entries and walks that end above their members;
* `Trace.requests_eq`: how many requests a walk makes;
* `Resolver.resolveAll_misses`: the misses of resolutions one after another.

Nothing is supposed of the fetches here, but that no registration takes the entry of another.
-/

namespace Heritage

def Node.isMember : Node → Bool
  | .member _ => true
  | _ => false

theorem Place.Fits.isMember_eq_false {place : Place} {node : Node} (h : place.Fits node) :
    node.isMember = false := by
  cases node with
  | member m => cases place <;> cases h
  | defaults | package | type => rfl

variable {κ : Type} [FragmentFamily κ]

namespace Walk

variable {k : κ}

/-- Whether a walk has failed before it came to the member. -/
def stopsAbove (w : Walk κ k) : Bool :=
  match w.outcome with
  | .ok _ => false
  | .error _ => !w.fetched.any Node.isMember

theorem stopsAbove_of_member (outcome : Except Failure (Fragment k)) (cache : Cache κ)
    (m : Member) : (⟨outcome, cache, [.member m]⟩ : Walk κ k).stopsAbove = false := by
  cases outcome <;> rfl

theorem stopsAbove_of_failure {node : Node} (h : node.isMember = false) (failure : Failure)
    (cache : Cache κ) : (⟨.error failure, cache, [node]⟩ : Walk κ k).stopsAbove = true := by
  simp [stopsAbove, h]

theorem stopsAbove_of_fetched {node : Node} (h : node.isMember = false) (w : Walk κ k) :
    { w with fetched := node :: w.fetched }.stopsAbove = w.stopsAbove := by
  simp [stopsAbove, h]

end Walk

variable [DecidableEq κ]

/-! ## Entries -/

attribute [ext] CacheStats

namespace Cache

variable {cache cache' : Cache κ} {key : CacheKey κ}

/-- A cache that lists no key twice. -/
def DistinctKeys (cache : Cache κ) : Prop :=
  (cache.entries.entries.map Prod.fst).Nodup

theorem contains_empty (key : CacheKey κ) : (empty : Cache κ).contains key = false := rfl

theorem mem_keys_iff :
    key ∈ cache.entries.entries.map Prod.fst ↔ cache.contains key = true :=
  Table.find?_isSome_iff.symm

theorem entries_store (h : cache.stored? key = none) (f : AnyFragment κ) :
    (cache.store key f).entries.entries = cache.entries.entries ++ [(key, f)] := by
  rw [store, h]
  exact Table.put_of_not_mem (Table.find?_eq_none_iff.mp h) f

theorem stats_fetch (h : cache.stored? key = none) (f : AnyFragment κ) :
    (cache.countMiss.store key f).stats =
      ⟨cache.stats.hits, cache.stats.misses + 1, cache.stats.entries + 1⟩ := by
  have hNew : cache.countMiss.stored? key = none := h
  rw [stats, entries_store hNew, List.length_append, store, hNew]
  rfl

theorem DistinctKeys.store (hKeys : cache.DistinctKeys) (h : cache.stored? key = none)
    (f : AnyFragment κ) : (cache.store key f).DistinctKeys := by
  rw [DistinctKeys, entries_store h, List.map_append]
  refine List.nodup_append.mpr ⟨hKeys, List.nodup_singleton key, ?_⟩
  rintro old hOld other hOther rfl
  have hKey : old = key := List.mem_singleton.mp hOther
  exact Table.find?_eq_none_iff.mp h (hKey ▸ hOld)

/-- Caches with the same keys have as many entries. -/
theorem stats_entries_congr (h : cache.DistinctKeys) (h' : cache'.DistinctKeys)
    (hSame : ∀ key, cache.contains key = cache'.contains key) :
    cache.stats.entries = cache'.stats.entries := by
  have hPerm : (cache.entries.entries.map Prod.fst).Perm (cache'.entries.entries.map Prod.fst) := by
    apply (List.perm_ext_iff_of_nodup h h').mpr
    intro key
    rw [mem_keys_iff, mem_keys_iff, hSame key]
  have hLength := hPerm.length_eq
  rwa [List.length_map, List.length_map] at hLength

end Cache

/-! ## Walks -/

namespace Registration

variable {r : Registration κ} {m : Member} {current next : Fragment r.kind} {cache : Cache κ}
  {stages rest : List (Place × Node)} {place : Place} {node : Node} {w : Walk κ r.kind}

/-- Whether a walk ends at a stage. -/
def endsAt (r : Registration κ) (cache : Cache κ) (stage : Place × Node) : Bool :=
  (r.stop? cache (some stage.1, stage.2)).isSome

theorem endsAt_of_stored {entry : AnyFragment κ} (h : cache.stored? (r.key place) = some entry) :
    r.endsAt cache (place, node) = false :=
  congrArg Option.isSome (stop?_of_stored h)

theorem endsAt_of_failed {failure : Failure} (hMissing : cache.stored? (r.key place) = none)
    (hStep : r.extractor.step current node = .error failure) :
    r.endsAt cache (place, node) = true :=
  congrArg Option.isSome (stop?_of_failed hMissing hStep)

theorem endsAt_of_fetched (hMissing : cache.stored? (r.key place) = none)
    (hStep : r.extractor.step current node = .ok next) : r.endsAt cache (place, node) = false :=
  congrArg Option.isSome (stop?_of_fetched hMissing hStep)

theorem endsAt_congr {cache' : Cache κ}
    (h : ∀ place, cache.stored? (r.key place) = cache'.stored? (r.key place)) :
    r.endsAt cache = r.endsAt cache' := by
  funext stage
  exact congrArg Option.isSome (stop?_congr h _)

theorem endsAt_store (cache : Cache κ) (hNodes : OneNodeEach ((place, node) :: rest))
    (hStep : r.extractor.step current node = .ok next) (f : AnyFragment κ) :
    ∀ stage ∈ rest, r.endsAt (cache.store (r.key place) f) stage = r.endsAt cache stage := by
  intro stage hStage
  have hVisit : (some stage.1, stage.2) ∈ visitsOf ⟨"", ""⟩ rest :=
    List.mem_append_left _ (List.mem_map_of_mem hStage)
  have hFetch := Extractor.failure?_eq_none_of_step hStep
  exact congrArg Option.isSome (stop?_store cache hNodes hFetch f _ hVisit)

namespace Trace

variable (h : r.Trace m current cache stages w)

include h

theorem distinctKeys (hKeys : cache.DistinctKeys) : w.cache.DistinctKeys := by
  induction h with
  | arrived => exact hKeys
  | known hStored hRest ih => exact ih hKeys
  | failed hMissing hStep => exact hKeys
  | @fetched current next cache place node rest w hMissing hStep hRest ih =>
    have hCounted : cache.countMiss.DistinctKeys := hKeys
    exact ih (hCounted.store hMissing _)

theorem stopsAbove_iff (hNodes : OneNodeEach stages)
    (hFits : ∀ stage ∈ stages, stage.1.Fits stage.2) :
    w.stopsAbove = true ↔ ∃ stage ∈ stages, r.endsAt cache stage = true := by
  induction h with
  | arrived current cache =>
    rw [Walk.stopsAbove_of_member]
    simp
  | @known current next cache place node rest w hStored hRest ih =>
    obtain ⟨-, hRestFits⟩ := List.forall_mem_cons.mp hFits
    rw [List.exists_mem_cons_iff, endsAt_of_stored hStored]
    simp only [Bool.false_eq_true, false_or]
    exact ih hNodes.tail hRestFits
  | @failed current cache place node rest failure hMissing hStep =>
    obtain ⟨hFirst, -⟩ := List.forall_mem_cons.mp hFits
    rw [Walk.stopsAbove_of_failure hFirst.isMember_eq_false, List.exists_mem_cons_iff,
      endsAt_of_failed hMissing hStep]
    simp
  | @fetched current next cache place node rest w hMissing hStep hRest ih =>
    obtain ⟨hFirst, hRestFits⟩ := List.forall_mem_cons.mp hFits
    have hSame := endsAt_store cache.countMiss hNodes hStep ⟨r.kind, next⟩
    rw [Walk.stopsAbove_of_fetched hFirst.isMember_eq_false, ih hNodes.tail hRestFits,
      List.exists_mem_cons_iff, endsAt_of_fetched hMissing hStep]
    simp only [Bool.false_eq_true, false_or]
    refine exists_congr fun stage => and_congr_right fun hStage => ?_
    rw [hSame stage hStage]
    rfl

/-- Every request that no entry answers adds an entry, or ends the walk above the member. -/
theorem misses_eq (hFits : ∀ stage ∈ stages, stage.1.Fits stage.2) :
    w.cache.stats.misses + cache.stats.entries =
      cache.stats.misses + w.cache.stats.entries + if w.stopsAbove then 1 else 0 := by
  induction h with
  | arrived current cache => simp [Walk.stopsAbove_of_member]
  | known hStored hRest ih => exact ih (List.forall_mem_cons.mp hFits).2
  | @failed current cache place node rest failure hMissing hStep =>
    obtain ⟨hFirst, -⟩ := List.forall_mem_cons.mp hFits
    have hMisses : cache.countMiss.stats.misses = cache.stats.misses + 1 := rfl
    have hEntries : cache.countMiss.stats.entries = cache.stats.entries := rfl
    rw [Walk.stopsAbove_of_failure hFirst.isMember_eq_false, if_pos rfl]
    dsimp only
    omega
  | @fetched current next cache place node rest w hMissing hStep hRest ih =>
    obtain ⟨hFirst, hRestFits⟩ := List.forall_mem_cons.mp hFits
    have hRestMisses := ih hRestFits
    rw [Cache.stats_fetch hMissing] at hRestMisses
    dsimp only at hRestMisses
    rw [Walk.stopsAbove_of_fetched hFirst.isMember_eq_false]
    dsimp only
    omega

/-- A walk makes a request at each stage up to the one that it ends at. -/
theorem requests_eq (hNodes : OneNodeEach stages) :
    w.cache.stats.hits + w.cache.stats.misses =
      cache.stats.hits + cache.stats.misses + (through (r.endsAt cache) stages).length := by
  induction h with
  | arrived current cache => rfl
  | @known current next cache place node rest w hStored hRest ih =>
    have hRequests := ih hNodes.tail
    have hSame : through (r.endsAt cache.countHit) rest = through (r.endsAt cache) rest := rfl
    have hHits : cache.countHit.stats.hits = cache.stats.hits + 1 := rfl
    have hMisses : cache.countHit.stats.misses = cache.stats.misses := rfl
    rw [through, endsAt_of_stored hStored, if_neg Bool.false_ne_true, List.length_cons, ← hSame]
    omega
  | @failed current cache place node rest failure hMissing hStep =>
    rw [through_cons_of_pos (endsAt_of_failed hMissing hStep)]
    rfl
  | @fetched current next cache place node rest w hMissing hStep hRest ih =>
    have hRequests := ih hNodes.tail
    have hSame : through (r.endsAt (cache.countMiss.store (r.key place) ⟨r.kind, next⟩)) rest =
        through (r.endsAt cache) rest :=
      through_congr (endsAt_store cache.countMiss hNodes hStep _)
    rw [Cache.stats_fetch hMissing, hSame] at hRequests
    dsimp only at hRequests
    rw [through, endsAt_of_fetched hMissing hStep, if_neg Bool.false_ne_true, List.length_cons]
    dsimp only
    omega

end Trace

end Registration

/-! ## Resolutions -/

/-- Whether a kind has failed before its extractor was asked for the member. -/
def Resolution.stopsAbove (resolution : Resolution κ) (k : κ) : Bool :=
  match resolution.outcomeOf k with
  | some (.error _) => !(resolution.fetchedFor k).any Node.isMember
  | _ => false

namespace Resolver

variable {resolver : Resolver κ} {rs : List (Registration κ)} {c : Chain} {cache : Cache κ}
  {target : Target}

theorem tour_misses (hKinds : (rs.map (·.kind)).Nodup) (h : cache.WellKinded) :
    (tour c cache rs).cache.stats.misses + cache.stats.entries =
      cache.stats.misses + (tour c cache rs).cache.stats.entries +
        rs.countP fun r => (r.walk c cache).stopsAbove := by
  induction rs generalizing cache with
  | nil => rfl
  | cons s rest ih =>
    obtain ⟨hNew, hRestKinds⟩ := List.nodup_cons.mp hKinds
    have hTrace := Registration.walk_trace (r := s) c h
    have hFirst := hTrace.misses_eq fun _ => Chain.stages_fits
    have hOthers := ih hRestKinds (hTrace.wellKinded h)
    -- the others walk in the cache that the first walk leaves, but end where they would without it
    have hSame : (rest.countP fun r => (r.walk c (s.walk c cache).cache).stopsAbove) =
        rest.countP fun r => (r.walk c cache).stopsAbove := by
      apply List.countP_congr
      intro r hr
      have hKind : s.kind ≠ r.kind := fun hSame => hNew (List.mem_map.mpr ⟨r, hr, hSame.symm⟩)
      obtain ⟨hOutcome, hFetched, -⟩ := walk_after c h hKind
      rw [Walk.stopsAbove, Walk.stopsAbove, hOutcome, hFetched]
    rw [List.countP_cons, ← hSame, tour_cache_cons]
    omega

theorem tour_requests (hKinds : (rs.map (·.kind)).Nodup) (h : cache.WellKinded) :
    (tour c cache rs).cache.stats.hits + (tour c cache rs).cache.stats.misses =
      cache.stats.hits + cache.stats.misses +
        (rs.flatMap fun r => (through (r.endsAt cache) c.stages).map (r.key ·.1)).length := by
  induction rs generalizing cache with
  | nil => rfl
  | cons s rest ih =>
    obtain ⟨hNew, hRestKinds⟩ := List.nodup_cons.mp hKinds
    have hTrace := Registration.walk_trace (r := s) c h
    have hFirst := hTrace.requests_eq c.stages_oneNodeEach
    have hOthers := ih hRestKinds (hTrace.wellKinded h)
    have hSame : (rest.flatMap fun r =>
          (through (r.endsAt (s.walk c cache).cache) c.stages).map (r.key ·.1)) =
        rest.flatMap fun r => (through (r.endsAt cache) c.stages).map (r.key ·.1) := by
      apply List.flatMap_congr
      intro r hr
      have hKind : s.kind ≠ r.kind := fun hSame => hNew (List.mem_map.mpr ⟨r, hr, hSame.symm⟩)
      rw [Registration.endsAt_congr (walk_after c h hKind).2.2]
    rw [List.flatMap_cons, List.length_append, List.length_map, ← hSame, tour_cache_cons]
    omega

theorem stopsAbove_of_chain (hChain : Chain.ofTarget resolver.root target = .ok c)
    (hKinds : resolver.kinds.Nodup) (h : cache.WellKinded) {r : Registration κ}
    (hr : r ∈ resolver.registrations) :
    (resolver.resolve cache target).stopsAbove r.kind = (r.walk c cache).stopsAbove := by
  obtain ⟨hOutcome, hFetched, -⟩ := shows_walk hChain hKinds hr h
  rw [Resolution.stopsAbove, hOutcome, hFetched, Walk.stopsAbove]
  cases (r.walk c cache).outcome <;> rfl

/-- The kinds of a resolver that a resolution ended above the member. -/
def stopped (resolver : Resolver κ) (cache : Cache κ) (target : Target) : List κ :=
  resolver.kinds.filter (resolver.resolve cache target).stopsAbove

theorem stopped_of_fault {fault : Chain.Fault}
    (hFault : Chain.ofTarget resolver.root target = .error fault) (cache : Cache κ) :
    resolver.stopped cache target = [] := by
  rw [stopped, resolve_of_fault hFault]
  exact List.filter_eq_nil_iff.mpr fun _ _ => Bool.false_ne_true

theorem length_stopped (hChain : Chain.ofTarget resolver.root target = .ok c)
    (hKinds : resolver.kinds.Nodup) (h : cache.WellKinded) :
    (resolver.stopped cache target).length =
      resolver.registrations.countP fun r => (r.walk c cache).stopsAbove := by
  rw [stopped, kinds, ← List.countP_eq_length_filter, List.countP_map]
  apply List.countP_congr
  intro r hr
  rw [Function.comp_apply, stopsAbove_of_chain hChain hKinds h hr]

theorem resolve_misses (hKinds : resolver.kinds.Nodup) (h : cache.WellKinded) (target : Target) :
    (resolver.resolve cache target).cache.stats.misses + cache.stats.entries =
      cache.stats.misses + (resolver.resolve cache target).cache.stats.entries +
        (resolver.stopped cache target).length := by
  cases hChain : Chain.ofTarget resolver.root target with
  | error fault =>
    rw [stopped_of_fault hChain, resolve_of_fault hChain]
    rfl
  | ok c =>
    rw [length_stopped hChain hKinds h, resolve, hChain]
    exact tour_misses hKinds h

/-! ## Resolutions one after another -/

/-- The cache after targets have been resolved one after another. -/
def resolveAll (resolver : Resolver κ) (cache : Cache κ) (targets : List Target) : Cache κ :=
  targets.foldl (fun cache target => (resolver.resolve cache target).cache) cache

theorem resolveAll_cons (resolver : Resolver κ) (cache : Cache κ) (target : Target)
    (rest : List Target) : resolver.resolveAll cache (target :: rest) =
      resolver.resolveAll (resolver.resolve cache target).cache rest := rfl

/-- The walks that ended above the member while targets were resolved one after another. -/
def stops (resolver : Resolver κ) (cache : Cache κ) : List Target → List (Target × κ)
  | [] => []
  | target :: rest =>
    (resolver.stopped cache target).map (target, ·) ++
      stops resolver (resolver.resolve cache target).cache rest

theorem resolveAll_misses (hKinds : resolver.kinds.Nodup) (h : cache.WellKinded)
    (targets : List Target) :
    (resolver.resolveAll cache targets).stats.misses + cache.stats.entries =
      cache.stats.misses + (resolver.resolveAll cache targets).stats.entries +
        (resolver.stops cache targets).length := by
  induction targets generalizing cache with
  | nil => rfl
  | cons target rest ih =>
    have hFirst := resolve_misses hKinds h target
    have hNext : (resolver.resolve cache target).cache.WellKinded := resolve_wellKinded h
    have hOthers := ih hNext
    rw [stops, List.length_append, List.length_map, resolveAll_cons]
    omega

end Resolver

end Heritage
