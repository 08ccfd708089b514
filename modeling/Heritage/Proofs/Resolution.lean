import Heritage.Proofs.Trace
import Heritage.Resolver
import Mathlib.Data.List.TakeWhile

/-!
# Resolutions, one registration at a time

A resolution walks one chain for all registrations in turn. No walk sees what the others store, so
for each registration the resolution is a walk in a cache that holds the same entries for it as the
one that the resolution began with.

* `Resolver.exists_walk`: that walk, and what the resolution shows of it;
* `Resolver.outcomeOf_eq_error_iff`, `Resolver.fetchedFor_eq`, `Resolver.contains_iff`: when a kind
  fails, what is fetched for it and what is stored;
* `Resolver.resolve_stored?_mono`, `Resolver.resolve_stored?_of_ne`: a resolution changes and
  removes no entry, and touches the keys of its registrations only;
* `Resolver.resolve_keeps`: what every walk keeps, a resolution keeps.
-/

namespace Heritage

variable {κ : Type} [FragmentFamily κ]

/-- How the registered extractors answer at one time. Their fetches may change from one resolution
to the next. -/
abbrev Answers (κ : Type) [FragmentFamily κ] : Type :=
  (r : Registration κ) → Extractor (Fragment r.kind)

/-- The registration of an extractor as it answers now. -/
def Registration.answering (r : Registration κ) (extractor : Extractor (Fragment r.kind)) :
    Registration κ :=
  { r with extractor }

/-- A resolver with its extractors as they answer now. -/
def Resolver.answering (resolver : Resolver κ) (answers : Answers κ) : Resolver κ :=
  { resolver with registrations := resolver.registrations.map fun r => r.answering (answers r) }

@[simp] theorem Resolver.answering_kinds (resolver : Resolver κ) (answers : Answers κ) :
    (resolver.answering answers).kinds = resolver.kinds := by
  simp only [answering, kinds, List.map_map]
  rfl

theorem Resolver.answering_mem (resolver : Resolver κ) {r : Registration κ}
    (h : r ∈ resolver.registrations) (answers : Answers κ) :
    r.answering (answers r) ∈ (resolver.answering answers).registrations :=
  List.mem_map.mpr ⟨r, h, rfl⟩

variable [DecidableEq κ]

/-! ## What a resolution shows for a kind -/

namespace Resolution

/-- The outcome that is recorded for a kind. -/
def outcomeOf (resolution : Resolution κ) (k : κ) : Option (Except Failure (Fragment k)) :=
  match resolution.outcome with
  | .ok configuration => Configuration.find? k configuration.entries
  | .error _ => none

/-- The nodes that were fetched for a kind, in order. -/
def fetchedFor (resolution : Resolution κ) (k : κ) : List Node :=
  (resolution.fetched.filter (·.1 = k)).map Prod.snd

end Resolution

namespace Resolver

variable {c : Chain} {cache : Cache κ} {rs : List (Registration κ)} {r : Registration κ}

/-! ## What all walks keep, a tour keeps -/

theorem tour_keeps {I : Cache κ → Prop}
    (hWalk : ∀ r ∈ rs, ∀ cache, I cache → I (r.walk c cache).cache) (h : I cache) :
    I (tour c cache rs).cache := by
  induction rs generalizing cache with
  | nil => exact h
  | cons r rest ih =>
    exact ih (fun s hs => hWalk s (List.mem_cons_of_mem r hs)) (hWalk r List.mem_cons_self cache h)

theorem tour_stored?_mono (h : cache.WellKinded) {key : CacheKey κ} {entry : AnyFragment κ}
    (hEntry : cache.stored? key = some entry) : (tour c cache rs).cache.stored? key = some entry :=
  (tour_keeps (I := fun cache => cache.WellKinded ∧ cache.stored? key = some entry)
    (fun _ _ _ hKept => ⟨(Registration.walk_trace c hKept.1).wellKinded hKept.1,
      (Registration.walk_trace c hKept.1).stored?_mono hKept.2⟩) ⟨h, hEntry⟩).2

theorem tour_stored?_of_ne (h : cache.WellKinded) {key : CacheKey κ}
    (hKey : ∀ r ∈ rs, ∀ place, r.key place ≠ key) :
    (tour c cache rs).cache.stored? key = cache.stored? key :=
  (tour_keeps (I := fun other => other.WellKinded ∧ other.stored? key = cache.stored? key)
    (fun r hr _ hKept => ⟨(Registration.walk_trace c hKept.1).wellKinded hKept.1,
      ((Registration.walk_trace c hKept.1).stored?_of_ne (hKey r hr)).trans hKept.2⟩) ⟨h, rfl⟩).2

/-! ## The walk for one registration -/

omit [DecidableEq κ] in
theorem key_ne_of_kind_ne {r s : Registration κ} (h : s.kind ≠ r.kind) (place place' : Place) :
    s.key place ≠ r.key place' :=
  fun hKey => h (congrArg CacheKey.kind hKey)

theorem tour_fetched_kind {fetch : κ × Node} (h : fetch ∈ (tour c cache rs).fetched) :
    fetch.1 ∈ rs.map (·.kind) := by
  induction rs generalizing cache with
  | nil => cases h
  | cons r rest ih =>
    rcases List.mem_append.mp h with hOwn | hOthers
    · obtain ⟨node, -, rfl⟩ := List.mem_map.mp hOwn
      exact List.mem_cons_self
    · exact List.mem_cons_of_mem _ (ih hOthers)

/-- What a tour shows of the walk `w` for the registration `r`. -/
structure Shows (t : Tour κ) (r : Registration κ) (w : Walk κ r.kind) : Prop where
  outcome : Configuration.find? r.kind t.entries = some w.outcome
  fetched : (t.fetched.filter (·.1 = r.kind)).map Prod.snd = w.fetched
  stored : ∀ place, t.cache.stored? (r.key place) = w.cache.stored? (r.key place)

theorem tour_exists_walk (hKinds : (rs.map (·.kind)).Nodup) (hr : r ∈ rs)
    (h : cache.WellKinded) :
    ∃ before : Cache κ, before.WellKinded ∧
      (∀ place, before.stored? (r.key place) = cache.stored? (r.key place)) ∧
      Shows (tour c cache rs) r (r.walk c before) := by
  induction rs generalizing cache with
  | nil => cases hr
  | cons s rest ih =>
    have hNew : s.kind ∉ rest.map (·.kind) := (List.nodup_cons.mp hKinds).1
    have hRestKinds : (rest.map (·.kind)).Nodup := (List.nodup_cons.mp hKinds).2
    have hTrace := Registration.walk_trace (r := s) c h
    rcases List.mem_cons.mp hr with rfl | hRest
    · refine ⟨cache, h, fun _ => rfl, ?_, ?_, ?_⟩
      · simp [tour, Configuration.find?]
      · have hOwn : ((r.walk c cache).fetched.map (r.kind, ·)).filter (·.1 = r.kind) =
            (r.walk c cache).fetched.map (r.kind, ·) := by
          refine List.filter_eq_self.mpr fun fetch hFetch => ?_
          obtain ⟨node, -, rfl⟩ := List.mem_map.mp hFetch
          simp
        have hOthers : (tour c (r.walk c cache).cache rest).fetched.filter (·.1 = r.kind) = [] := by
          refine List.filter_eq_nil_iff.mpr fun fetch hFetch hKind => hNew ?_
          exact of_decide_eq_true hKind ▸ tour_fetched_kind hFetch
        rw [tour, List.filter_append, hOwn, hOthers, List.append_nil, List.map_map]
        exact List.map_id _
      · intro place
        refine tour_stored?_of_ne (hTrace.wellKinded h) fun s hs other => ?_
        exact key_ne_of_kind_ne (fun hSame => hNew (List.mem_map.mpr ⟨s, hs, hSame⟩)) other place
    · have hKind : s.kind ≠ r.kind := fun hSame => hNew (List.mem_map.mpr ⟨r, hRest, hSame.symm⟩)
      obtain ⟨before, hBefore, hStored, hShows⟩ :=
        ih hRestKinds hRest (hTrace.wellKinded h)
      refine ⟨before, hBefore, ?_, ?_, ?_, hShows.stored⟩
      · intro place
        exact (hStored place).trans
          (hTrace.stored?_of_ne fun other => key_ne_of_kind_ne hKind other place)
      · rw [tour, Configuration.find?, dif_neg hKind]
        exact hShows.outcome
      · have hOthers : ((s.walk c cache).fetched.map (s.kind, ·)).filter (·.1 = r.kind) = [] := by
          refine List.filter_eq_nil_iff.mpr fun fetch hFetch => ?_
          obtain ⟨node, -, rfl⟩ := List.mem_map.mp hFetch
          simpa using hKind
        rw [tour, List.filter_append, hOthers, List.nil_append]
        exact hShows.fetched

/-! ## Resolutions -/

variable {resolver : Resolver κ} {target : Target}

/-- For each of its registrations, a resolution is a walk in a cache that holds what the resolution
began with for the registration. -/
theorem exists_walk (hChain : Chain.ofTarget resolver.root target = .ok c)
    (hKinds : resolver.kinds.Nodup) (hr : r ∈ resolver.registrations) (h : cache.WellKinded) :
    ∃ before : Cache κ, before.WellKinded ∧
      (∀ place, before.stored? (r.key place) = cache.stored? (r.key place)) ∧
      (resolver.resolve cache target).outcomeOf r.kind = some (r.walk c before).outcome ∧
      (resolver.resolve cache target).fetchedFor r.kind = (r.walk c before).fetched ∧
      ∀ place, (resolver.resolve cache target).cache.stored? (r.key place) =
        (r.walk c before).cache.stored? (r.key place) := by
  obtain ⟨before, hBefore, hStored, hShows⟩ := tour_exists_walk (c := c) hKinds hr h
  refine ⟨before, hBefore, hStored, ?_, ?_, ?_⟩
  · rw [resolve, hChain]
    exact hShows.outcome
  · rw [resolve, hChain]
    exact hShows.fetched
  · rw [resolve, hChain]
    exact hShows.stored

section

variable (hChain : Chain.ofTarget resolver.root target = .ok c) (hKinds : resolver.kinds.Nodup)
  (hr : r ∈ resolver.registrations) (h : cache.WellKinded)

include hChain hKinds hr h

/-- A kind fails as the first node of the chain that is neither known nor fetched now. -/
theorem outcomeOf_eq_error_iff {failure : Failure} :
    (resolver.resolve cache target).outcomeOf r.kind = some (.error failure) ↔
      c.visits.findSome? (r.stop? cache) = some failure := by
  obtain ⟨before, hBefore, hStored, hOutcome, -, -⟩ := exists_walk hChain hKinds hr h
  have hTrace := Registration.walk_trace (r := r) c hBefore
  rw [hOutcome, Option.some.injEq, hTrace.outcome_eq_error_iff c.stages_oneNodeEach,
    funext (Registration.stop?_congr hStored)]
  rfl

/-- A resolution fetches the distinct nodes that are missing, in order and up to the first failure.
-/
theorem fetchedFor_eq :
    (resolver.resolve cache target).fetchedFor r.kind = through r.extractor.fails
      (((c.stages.filter fun stage => !cache.contains (r.key stage.1)).eraseDups).map Prod.snd ++
        [.member c.member]) := by
  obtain ⟨before, hBefore, hStored, -, hFetched, -⟩ := exists_walk hChain hKinds hr h
  have hSame : ∀ place, before.contains (r.key place) = cache.contains (r.key place) :=
    fun place => Cache.contains_congr (hStored place)
  rw [hFetched, (Registration.walk_trace c hBefore).fetched_eq c.stages_oneNodeEach]
  simp only [hSame]

/-- A resolution stores what was missing before the first node that fails. -/
theorem contains_iff {place : Place} :
    (resolver.resolve cache target).cache.contains (r.key place) = true ↔
      cache.contains (r.key place) = true ∨ some place ∈ (c.visits.takeWhile fun visit =>
        (r.stop? cache visit).isNone).map Prod.fst := by
  obtain ⟨before, hBefore, hStored, -, -, hAfter⟩ := exists_walk hChain hKinds hr h
  have hTrace := Registration.walk_trace (r := r) c hBefore
  rw [Cache.contains_congr (hAfter place), hTrace.contains_iff c.stages_oneNodeEach,
    Cache.contains_congr (hStored place), funext (Registration.stop?_congr hStored)]
  rfl

/-- After a success the whole chain is known. -/
theorem contains_of_ok {fragment : Fragment r.kind}
    (hOk : (resolver.resolve cache target).outcomeOf r.kind = some (.ok fragment)) :
    ∀ stage ∈ c.stages, (resolver.resolve cache target).cache.contains (r.key stage.1) := by
  intro stage hStage
  have hPasses : ∀ visit ∈ c.visits, (r.stop? cache visit).isNone := by
    intro visit hVisit
    cases hFirst : c.visits.findSome? (r.stop? cache) with
    | none => rw [List.findSome?_eq_none_iff.mp hFirst visit hVisit, Option.isNone_none]
    | some failure =>
      have hError := (outcomeOf_eq_error_iff hChain hKinds hr h).mpr hFirst
      rw [hOk] at hError
      cases hError
  refine (contains_iff hChain hKinds hr h).mpr (Or.inr ?_)
  rw [List.takeWhile_eq_self_iff.mpr hPasses]
  exact List.mem_map.mpr ⟨_, List.mem_append_left _ (List.mem_map_of_mem hStage), rfl⟩

end

theorem resolve_keeps {I : Cache κ → Prop}
    (hWalk : ∀ r ∈ resolver.registrations, ∀ c cache, I cache → I (r.walk c cache).cache)
    (h : I cache) : I (resolver.resolve cache target).cache := by
  unfold resolve
  split
  · exact h
  · exact tour_keeps (fun r hr => hWalk r hr _) h

theorem resolve_wellKinded (h : cache.WellKinded) :
    (resolver.resolve cache target).cache.WellKinded :=
  resolve_keeps (fun _ _ c _ hKinds => (Registration.walk_trace c hKinds).wellKinded hKinds) h

theorem resolve_stored?_mono (h : cache.WellKinded) {key : CacheKey κ} {entry : AnyFragment κ}
    (hEntry : cache.stored? key = some entry) :
    (resolver.resolve cache target).cache.stored? key = some entry := by
  unfold resolve
  split
  · exact hEntry
  · exact tour_stored?_mono h hEntry

theorem resolve_stored?_of_ne (h : cache.WellKinded) {key : CacheKey κ}
    (hKey : ∀ r ∈ resolver.registrations, ∀ place, r.key place ≠ key) :
    (resolver.resolve cache target).cache.stored? key = cache.stored? key := by
  unfold resolve
  split
  · rfl
  · exact tour_stored?_of_ne h hKey

end Resolver

end Heritage
