import Heritage.Proofs.Counts
import Heritage.Proofs.Settled

/-!
# The order of targets

With fetches that never change, a cache does not tell in which order targets have been resolved.
Which request is answered and which walk adds an entry depends on the order, but not what there is
in the end, nor how many requests there were.

* `Resolver.Settled`: what all registrations of a resolver keep of a cache;
* `Resolver.resolveAll_contains_iff`: the keys, with no regard to what came first;
* `Resolver.resolveAll_requests`, `Resolver.stops_eq`: the requests and the walks that end above
  their members, target by target;
* `cache_forgets_order`: entries and counts after any order.
-/

namespace Heritage

variable {κ : Type} [FragmentFamily κ] [DecidableEq κ]

theorem mem_takeWhile_visitsOf {p : Option Place × Node → Bool} {m : Member}
    {stages : List (Place × Node)} {place : Place} :
    some place ∈ ((visitsOf m stages).takeWhile p).map Prod.fst ↔
      ∃ stage ∈ stages.takeWhile (fun stage => p (some stage.1, stage.2)), stage.1 = place := by
  induction stages with
  | nil =>
    have hMember : visitsOf m [] = [(none, .member m)] := rfl
    rw [hMember, List.takeWhile_cons]
    split <;> simp
  | cons stage rest ih =>
    obtain ⟨first, node⟩ := stage
    rw [visitsOf_cons, List.takeWhile_cons, List.takeWhile_cons]
    by_cases hp : p (some first, node)
    · rw [if_pos hp, if_pos hp, List.map_cons, List.mem_cons, ih, List.exists_mem_cons_iff,
        Option.some.injEq, eq_comm]
    · rw [if_neg hp, if_neg hp]
      simp

namespace Registration

variable {r : Registration κ} {cache : Cache κ} {c : Chain} {stage : Place × Node}

theorem Sound.endsAt_eq (h : r.Sound r.extractor cache) (hName : r.extractor.ByName)
    (hStage : stage ∈ c.stages) : r.endsAt cache stage = r.extractor.fails stage.2 :=
  congrArg Option.isSome (h.stop?_eq hName (Chain.stages_fits hStage))

end Registration

namespace Resolver

variable {resolver : Resolver κ} {cache : Cache κ} {target : Target} {c : Chain}

/-- A cache that lists no key twice and holds, for all registrations, what places settle on. -/
structure Settled (resolver : Resolver κ) (cache : Cache κ) : Prop where
  wellKinded : cache.WellKinded
  distinctKeys : cache.DistinctKeys
  sound : ∀ r ∈ resolver.registrations, r.Sound r.extractor cache

omit [DecidableEq κ] in
theorem registration_eq_of_kind (hKinds : resolver.kinds.Nodup) {r s : Registration κ}
    (hr : r ∈ resolver.registrations) (hs : s ∈ resolver.registrations) (h : r.kind = s.kind) :
    r = s :=
  List.inj_on_of_nodup_map hKinds hr hs h

theorem settled_empty (resolver : Resolver κ) : resolver.Settled .empty where
  wellKinded := Cache.wellKinded_empty
  distinctKeys := List.nodup_nil
  sound _ _ _ _ hEntry := by cases hEntry

/-- Where two caches both have an entry, it is the same. -/
theorem Settled.stored?_congr {cache' : Cache κ} (h : resolver.Settled cache)
    (h' : resolver.Settled cache') {r : Registration κ} (hr : r ∈ resolver.registrations)
    (hName : r.extractor.ByName) {place : Place}
    (hSame : cache.contains (r.key place) = cache'.contains (r.key place)) :
    cache.stored? (r.key place) = cache'.stored? (r.key place) := by
  cases hStored : cache.stored? (r.key place) with
  | none =>
    rw [Cache.contains_eq_false_iff.mpr hStored] at hSame
    exact (Cache.contains_eq_false_iff.mp hSame.symm).symm
  | some entry =>
    rw [Cache.contains_of_stored hStored] at hSame
    obtain ⟨other, hOther⟩ := Cache.contains_eq_true_iff.mp hSame.symm
    obtain ⟨f, rfl, hSettles⟩ := h.sound r hr place entry hStored
    obtain ⟨g, rfl, hSettles'⟩ := h'.sound r hr place other hOther
    rw [hSettles.unique hName hSettles', hOther]

/-! ## What a resolution adds -/

/-- The keys of the nodes above the member of a target that come before the first one that fails. -/
def Stores (resolver : Resolver κ) (target : Target) (key : CacheKey κ) : Prop :=
  ∃ c, Chain.ofTarget resolver.root target = .ok c ∧ ∃ r ∈ resolver.registrations,
    ∃ stage ∈ c.stages.takeWhile (fun stage => !r.extractor.fails stage.2), key = r.key stage.1

/-- The keys that are requested for a target, one at each node above the member up to the first one
that fails. -/
def requests (resolver : Resolver κ) (target : Target) : List (CacheKey κ) :=
  match Chain.ofTarget resolver.root target with
  | .error _ => []
  | .ok c => resolver.registrations.flatMap fun r =>
      (through (fun stage => r.extractor.fails stage.2) c.stages).map (r.key ·.1)

/-- The kinds with a node above the member of a target that fails. -/
def failing (resolver : Resolver κ) (target : Target) : List κ :=
  match Chain.ofTarget resolver.root target with
  | .error _ => []
  | .ok c => (resolver.registrations.filter fun r =>
      c.stages.any fun stage => r.extractor.fails stage.2).map (·.kind)

section

variable (hKinds : resolver.kinds.Nodup)
  (hName : ∀ r ∈ resolver.registrations, r.extractor.ByName) (h : resolver.Settled cache)

include hKinds hName h

theorem Settled.walk {r : Registration κ} (hr : r ∈ resolver.registrations) (c : Chain) :
    resolver.Settled (r.walk c cache).cache where
  wellKinded := (Registration.walk_trace c h.wellKinded).wellKinded h.wellKinded
  distinctKeys := (Registration.walk_trace c h.wellKinded).distinctKeys h.distinctKeys
  sound s hs := by
    by_cases hKind : r.kind = s.kind
    · obtain rfl := registration_eq_of_kind hKinds hr hs hKind
      exact (Registration.walk_sound c h.wellKinded (hName r hr) (.refl _) (h.sound r hr)).1
    · intro place entry hEntry
      rw [(walk_after c h.wellKinded hKind).2.2] at hEntry
      exact h.sound s hs place entry hEntry

theorem Settled.resolve (target : Target) :
    resolver.Settled (resolver.resolve cache target).cache :=
  resolve_keeps (fun _ hr c _ hCache => Settled.walk hKinds hName hCache hr c) h

theorem resolve_contains_iff {key : CacheKey κ} :
    (resolver.resolve cache target).cache.contains key = true ↔
      cache.contains key = true ∨ resolver.Stores target key := by
  cases hChain : Chain.ofTarget resolver.root target with
  | error fault =>
    rw [resolve_of_fault hChain]
    refine ⟨Or.inl, fun hOr => hOr.resolve_right ?_⟩
    rintro ⟨c, hOk, -⟩
    rw [hChain] at hOk
    cases hOk
  | ok c =>
    by_cases hOwn : ∃ r ∈ resolver.registrations, ∃ place, r.key place = key
    · obtain ⟨r, hr, place, rfl⟩ := hOwn
      have hPasses : (c.stages.takeWhile fun stage =>
            (r.stop? cache (some stage.1, stage.2)).isNone) =
          c.stages.takeWhile fun stage => !r.extractor.fails stage.2 := by
        apply takeWhile_congr
        intro stage hStage
        rw [← (h.sound r hr).endsAt_eq (hName r hr) hStage, Registration.endsAt, Option.not_isSome]
      rw [contains_iff hChain hKinds hr h.wellKinded, Chain.visits, mem_takeWhile_visitsOf, hPasses]
      refine or_congr_right ⟨?_, ?_⟩
      · rintro ⟨stage, hStage, rfl⟩
        exact ⟨c, hChain, r, hr, stage, hStage, rfl⟩
      · rintro ⟨c', hOk, s, hs, stage, hStage, hKey⟩
        obtain rfl : c = c' := Except.ok.inj (hChain.symm.trans hOk)
        obtain rfl := registration_eq_of_kind hKinds hr hs (congrArg CacheKey.kind hKey)
        exact ⟨stage, hStage, (Registration.key_injective hKey).symm⟩
    · have hUntouched : (resolver.resolve cache target).cache.stored? key = cache.stored? key :=
        resolve_stored?_of_ne h.wellKinded fun r hr place hKey => hOwn ⟨r, hr, place, hKey⟩
      rw [Cache.contains_congr hUntouched]
      refine ⟨Or.inl, fun hOr => hOr.resolve_right ?_⟩
      rintro ⟨c', -, r, hr, stage, -, rfl⟩
      exact hOwn ⟨r, hr, stage.1, rfl⟩

theorem resolve_requests (target : Target) :
    (resolver.resolve cache target).cache.stats.hits +
        (resolver.resolve cache target).cache.stats.misses =
      cache.stats.hits + cache.stats.misses + (resolver.requests target).length := by
  cases hChain : Chain.ofTarget resolver.root target with
  | error fault =>
    rw [resolve_of_fault hChain, requests, hChain]
    rfl
  | ok c =>
    have hRequests : resolver.requests target = resolver.registrations.flatMap fun r =>
        (through (r.endsAt cache) c.stages).map (r.key ·.1) := by
      rw [requests, hChain]
      apply List.flatMap_congr
      intro r hr
      rw [through_congr fun stage => (h.sound r hr).endsAt_eq (hName r hr)]
    rw [hRequests, resolve, hChain]
    exact tour_requests hKinds h.wellKinded

theorem stopped_eq (target : Target) : resolver.stopped cache target = resolver.failing target := by
  cases hChain : Chain.ofTarget resolver.root target with
  | error fault => rw [stopped_of_fault hChain, failing, hChain]
  | ok c =>
    rw [stopped, kinds, List.filter_map, failing, hChain]
    refine congrArg (List.map _) (List.filter_congr fun r hr => ?_)
    have hTrace := Registration.walk_trace (r := r) c h.wellKinded
    rw [Function.comp_apply, stopsAbove_of_chain hChain hKinds h.wellKinded hr, Bool.eq_iff_iff,
      hTrace.stopsAbove_iff c.stages_oneNodeEach fun _ => Chain.stages_fits, List.any_eq_true]
    refine exists_congr fun stage => and_congr_right fun hStage => ?_
    rw [(h.sound r hr).endsAt_eq (hName r hr) hStage]

/-! ## Targets one after another -/

theorem Settled.resolveAll (targets : List Target) :
    resolver.Settled (resolver.resolveAll cache targets) := by
  induction targets generalizing cache with
  | nil => exact h
  | cons target rest ih => exact ih (Settled.resolve hKinds hName h target)

theorem resolveAll_contains_iff (targets : List Target) {key : CacheKey κ} :
    (resolver.resolveAll cache targets).contains key = true ↔
      cache.contains key = true ∨ ∃ target ∈ targets, resolver.Stores target key := by
  induction targets generalizing cache with
  | nil => simp [Resolver.resolveAll]
  | cons target rest ih =>
    have hRest := ih (Settled.resolve hKinds hName h target)
    rw [resolve_contains_iff hKinds hName h, or_assoc] at hRest
    rw [List.exists_mem_cons_iff]
    exact hRest

theorem resolveAll_requests (targets : List Target) :
    (resolver.resolveAll cache targets).stats.hits +
        (resolver.resolveAll cache targets).stats.misses =
      cache.stats.hits + cache.stats.misses + (targets.flatMap resolver.requests).length := by
  induction targets generalizing cache with
  | nil => rfl
  | cons target rest ih =>
    have hFirst := resolve_requests hKinds hName h target
    have hRest := ih (Settled.resolve hKinds hName h target)
    rw [List.flatMap_cons, List.length_append, resolveAll_cons]
    omega

theorem stops_eq (targets : List Target) : resolver.stops cache targets =
    targets.flatMap fun target => (resolver.failing target).map (target, ·) := by
  induction targets generalizing cache with
  | nil => rfl
  | cons target rest ih =>
    rw [stops, stopped_eq hKinds hName h, ih (Settled.resolve hKinds hName h target),
      List.flatMap_cons]

end

end Resolver

/-- When targets are resolved one after another in an empty cache, their order leaves no trace: not
in the entries, and not in the counts of hits, misses and entries. The keys are those of the nodes
above the members that come before the first one that fails. Every miss is an entry now, or has
ended a walk above its member. -/
theorem cache_forgets_order {events : List (Event κ)} {b : ResolverBuilder κ}
    (hb : b ∈ (World.empty.run events).builders)
    (hName : ∀ r ∈ b.registrations, r.extractor.ByName) (targets : List Target) :
    let cache := b.build.resolveAll .empty targets
    (∀ others : List Target, others.Perm targets →
        (∀ key, (b.build.resolveAll .empty others).stored? key = cache.stored? key) ∧
          (b.build.resolveAll .empty others).stats = cache.stats) ∧
      (∀ key, cache.contains key = true ↔ ∃ target ∈ targets, b.build.Stores target key) ∧
      cache.stats.misses = cache.stats.entries + (b.build.stops .empty targets).length := by
  intro cache
  have hKinds : b.build.kinds.Nodup := (World.numbered_run events).kinds b hb
  have hEmpty := b.build.settled_empty
  have hContains : ∀ (run : List Target) (key : CacheKey κ),
      (b.build.resolveAll .empty run).contains key = true ↔
        ∃ target ∈ run, b.build.Stores target key := by
    intro run key
    rw [Resolver.resolveAll_contains_iff hKinds hName hEmpty, Cache.contains_empty]
    exact or_iff_right Bool.false_ne_true
  have hMisses : ∀ run : List Target, (b.build.resolveAll .empty run).stats.misses =
      (b.build.resolveAll .empty run).stats.entries + (b.build.stops .empty run).length := by
    intro run
    simpa [Cache.empty, Cache.stats] using
      Resolver.resolveAll_misses hKinds Cache.wellKinded_empty run
  refine ⟨fun others hPerm => ?_, hContains targets, hMisses targets⟩
  have hSettled := Resolver.Settled.resolveAll hKinds hName hEmpty others
  have hSettled' := Resolver.Settled.resolveAll hKinds hName hEmpty targets
  have hSame : ∀ key, (b.build.resolveAll .empty others).contains key = cache.contains key := by
    intro key
    rw [Bool.eq_iff_iff, hContains others, hContains targets]
    simp only [hPerm.mem_iff]
  have hStored : ∀ key, (b.build.resolveAll .empty others).stored? key = cache.stored? key := by
    intro key
    cases hKnown : cache.contains key with
    | false =>
      rw [Cache.contains_eq_false_iff.mp hKnown]
      exact Cache.contains_eq_false_iff.mp ((hSame key).trans hKnown)
    | true =>
      obtain ⟨target, -, c, -, r, hr, stage, -, rfl⟩ := (hContains targets key).mp hKnown
      exact hSettled.stored?_congr hSettled' hr (hName r hr) (hSame _)
  -- Which requests are hits depends on the order. What does not are the entries, the walks that end
  -- above their members, and so the misses, and the requests as a whole.
  have hEntries : (b.build.resolveAll .empty others).stats.entries = cache.stats.entries :=
    Cache.stats_entries_congr hSettled.distinctKeys hSettled'.distinctKeys hSame
  have hStops : (b.build.stops .empty others).length = (b.build.stops .empty targets).length := by
    rw [Resolver.stops_eq hKinds hName hEmpty, Resolver.stops_eq hKinds hName hEmpty]
    exact (hPerm.flatMap_right _).length_eq
  have hRequests : (b.build.resolveAll .empty others).stats.hits +
      (b.build.resolveAll .empty others).stats.misses = cache.stats.hits + cache.stats.misses := by
    rw [Resolver.resolveAll_requests hKinds hName hEmpty,
      Resolver.resolveAll_requests hKinds hName hEmpty, (hPerm.flatMap_right _).length_eq]
  have hMissesSame : (b.build.resolveAll .empty others).stats.misses = cache.stats.misses := by
    rw [hMisses others, hMisses targets, hEntries, hStops]
  have hHits : (b.build.resolveAll .empty others).stats.hits = cache.stats.hits := by omega
  exact ⟨hStored, CacheStats.ext hHits hMissesSame hEntries⟩

namespace Fixture

theorem Script.extractor_byName (F : Type) [Scripted F] (s : Script) :
    (s.extractor F).ByName := by
  intro a b hSame
  simp only [extractor, hSame]

/-- A script by which the leaf of the small target cannot be fetched. -/
def leaflessScript : Script :=
  { Script.empty with types := .ofList [("org.Leaf", .fail "torn off")] }

def leaflessEvents : List (Event Kind) :=
  [.start, .register 0 .text (leaflessScript.extractor String), .register 0 .trail trailExtractor]

def leaflessBuilder : ResolverBuilder Kind where
  root := none
  registrations := [⟨0, .text, leaflessScript.extractor String⟩, ⟨1, .trail, trailExtractor⟩]
  nextId := 2

theorem leaflessEvents_builders : (World.empty.run leaflessEvents).builders = [leaflessBuilder] :=
  rfl

/-- The base of the small target, which has a member of the same name. -/
def baseTarget : Target := ⟨[⟨"org.Base", "org"⟩], ⟨"org.Base", "runs"⟩⟩

end Fixture

open Fixture in
/-- Of the texts, the walk for the leaf ends above its member, whenever it takes place. -/
theorem cache_forgets_order_of_leafless :
    leaflessBuilder ∈ (World.empty.run leaflessEvents).builders ∧
      (∀ r ∈ leaflessBuilder.registrations, r.extractor.ByName) ∧
      (leaflessBuilder.build.resolveAll .empty [baseTarget, smallTarget]).stats =
        (leaflessBuilder.build.resolveAll .empty [smallTarget, baseTarget]).stats ∧
      (leaflessBuilder.build.resolveAll .empty [smallTarget, baseTarget]).stats = ⟨8, 10, 9⟩ ∧
      leaflessBuilder.build.stops .empty [smallTarget, baseTarget] = [(smallTarget, .text)] := by
  have hMem : leaflessBuilder ∈ (World.empty.run leaflessEvents).builders := by
    rw [leaflessEvents_builders]
    exact List.mem_cons_self
  have hName : ∀ r ∈ leaflessBuilder.registrations, r.extractor.ByName := by
    intro r hr
    rcases List.mem_cons.mp hr with rfl | hr
    · exact Script.extractor_byName String leaflessScript
    · rw [List.mem_singleton.mp hr]
      exact trailExtractor_byName
  obtain ⟨hOrder, -, -⟩ := cache_forgets_order hMem hName [smallTarget, baseTarget]
  have hSwap : [baseTarget, smallTarget].Perm [smallTarget, baseTarget] := List.Perm.swap ..
  exact ⟨hMem, hName, (hOrder _ hSwap).2, by decide, by decide⟩

end Heritage
