import Heritage.Proofs.Resolution

/-!
# Walks on their own

What a walk does follows from the entries of its own registration. So a resolution is for each
registration the walk that it would be if there were no others, in the cache that the resolution
began with.

* `Registration.Trace.congr`, `Registration.walk_congr`: a walk follows from its own entries;
* `Registration.walk_of_ok`: a fragment is what the member makes of an entry of the registration;
* `Resolver.shows_walk`: the walk of a registration in a resolution;
* `Resolver.outcome_of_chain`: all outcomes, in the order of the registrations.
-/

namespace Heritage

variable {κ : Type} [FragmentFamily κ] [DecidableEq κ]

namespace Registration

variable {r : Registration κ} {m : Member} {current : Fragment r.kind} {cache cache' : Cache κ}
  {stages : List (Place × Node)} {w w' : Walk κ r.kind}

theorem store_congr {place : Place} {f : AnyFragment κ}
    (hSame : ∀ other, cache.stored? (r.key other) = cache'.stored? (r.key other)) (other : Place) :
    (cache.store (r.key place) f).stored? (r.key other) =
      (cache'.store (r.key place) f).stored? (r.key other) := by
  rw [Cache.stored?_store, Cache.stored?_store, hSame place, hSame other]

theorem Trace.congr (h : r.Trace m current cache stages w) (h' : r.Trace m current cache' stages w')
    (hSame : ∀ place, cache.stored? (r.key place) = cache'.stored? (r.key place)) :
    w.outcome = w'.outcome ∧ w.fetched = w'.fetched ∧
      ∀ place, w.cache.stored? (r.key place) = w'.cache.stored? (r.key place) := by
  induction h generalizing cache' w' with
  | arrived current cache =>
    cases h' with
    | arrived => exact ⟨rfl, rfl, hSame⟩
  | @known current next cache place node rest w hStored hRest ih =>
    rw [hSame place] at hStored
    cases h' with
    | known hStored' hRest' =>
      rw [hStored'] at hStored
      cases hStored
      exact ih hRest' hSame
    | failed hMissing => simp [hMissing] at hStored
    | fetched hMissing => simp [hMissing] at hStored
  | @failed current cache place node rest failure hMissing hStep =>
    rw [hSame place] at hMissing
    cases h' with
    | known hStored => simp [hMissing] at hStored
    | failed hMissing' hStep' =>
      rw [hStep] at hStep'
      cases hStep'
      exact ⟨rfl, rfl, hSame⟩
    | fetched hMissing' hStep' => simp [hStep] at hStep'
  | @fetched current next cache place node rest w hMissing hStep hRest ih =>
    rw [hSame place] at hMissing
    cases h' with
    | known hStored => simp [hMissing] at hStored
    | failed hMissing' hStep' => simp [hStep] at hStep'
    | fetched hMissing' hStep' hRest' =>
      rw [hStep] at hStep'
      cases hStep'
      have hCounted : ∀ other, cache.countMiss.stored? (r.key other) =
          cache'.countMiss.stored? (r.key other) := hSame
      obtain ⟨hOutcome, hFetched, hStored⟩ := ih hRest' (store_congr hCounted)
      exact ⟨hOutcome, congrArg (node :: ·) hFetched, hStored⟩

theorem walk_congr (c : Chain) (h : cache.WellKinded) (h' : cache'.WellKinded)
    (hSame : ∀ place, cache.stored? (r.key place) = cache'.stored? (r.key place)) :
    (r.walk c cache).outcome = (r.walk c cache').outcome ∧
      (r.walk c cache).fetched = (r.walk c cache').fetched ∧
      ∀ place, (r.walk c cache).cache.stored? (r.key place) =
        (r.walk c cache').cache.stored? (r.key place) :=
  (walk_trace c h).congr (walk_trace c h') hSame

-- While no stage has been passed, what the member is merged into is where the walk began; this is
-- what the induction needs at the last stage.
theorem Trace.exists_last (h : r.Trace m current cache stages w) {f : Fragment r.kind}
    (hOk : w.outcome = .ok f) :
    ∃ g, r.extractor.step g (.member m) = .ok f ∧ (stages = [] → g = current) ∧
      ∀ stage, stages.getLast? = some stage →
        w.cache.stored? (r.key stage.1) = some ⟨r.kind, g⟩ := by
  induction h with
  | arrived current cache => exact ⟨current, hOk, fun _ => rfl, fun stage hLast => by cases hLast⟩
  | @known current next cache place node rest w hStored hRest ih =>
    obtain ⟨g, hStep, hNil, hLast⟩ := ih hOk
    refine ⟨g, hStep, fun hEmpty => (by cases hEmpty), fun stage hStage => ?_⟩
    cases rest with
    | nil =>
      cases hStage
      rw [hNil rfl]
      exact hRest.stored?_mono hStored
    | cons second rest => exact hLast stage hStage
  | failed hMissing hStep => cases hOk
  | @fetched current next cache place node rest w hMissing hStep hRest ih =>
    obtain ⟨g, hMember, hNil, hLast⟩ := ih hOk
    refine ⟨g, hMember, fun hEmpty => (by cases hEmpty), fun stage hStage => ?_⟩
    cases rest with
    | nil =>
      cases hStage
      rw [hNil rfl]
      exact hRest.stored?_mono (Cache.stored?_store_self _ hMissing)
    | cons second rest => exact hLast stage hStage

/-- The fragment that a walk gives is what the member makes of the entry for the place before it. -/
theorem walk_of_ok {c : Chain} (h : cache.WellKinded) {f : Fragment r.kind}
    (hOk : (r.walk c cache).outcome = .ok f) :
    ∃ stage g, c.stages.getLast? = some stage ∧
      (r.walk c cache).cache.stored? (r.key stage.1) = some ⟨r.kind, g⟩ ∧
      r.extractor.step g (.member c.member) = .ok f := by
  obtain ⟨g, hStep, -, hLast⟩ := (walk_trace c h).exists_last hOk
  have hSome : c.stages.getLast? = some (c.stages.getLast (List.cons_ne_nil _ _)) :=
    List.getLast?_eq_some_getLast _
  exact ⟨_, g, hSome, hLast _ hSome, hStep⟩

end Registration

namespace Resolver

variable {c : Chain} {cache : Cache κ} {rs : List (Registration κ)} {r : Registration κ}
  {resolver : Resolver κ} {target : Target}

/-- A walk does not notice the walk of another kind before it. -/
theorem walk_after {s : Registration κ} (c : Chain) (h : cache.WellKinded)
    (hKind : s.kind ≠ r.kind) :
    (r.walk c (s.walk c cache).cache).outcome = (r.walk c cache).outcome ∧
      (r.walk c (s.walk c cache).cache).fetched = (r.walk c cache).fetched ∧
      ∀ place, (s.walk c cache).cache.stored? (r.key place) = cache.stored? (r.key place) := by
  have hTrace := Registration.walk_trace (r := s) c h
  have hSame : ∀ place,
      (s.walk c cache).cache.stored? (r.key place) = cache.stored? (r.key place) := fun place =>
    hTrace.stored?_of_ne fun other => key_ne_of_kind_ne hKind other place
  obtain ⟨hOutcome, hFetched, -⟩ := Registration.walk_congr c (hTrace.wellKinded h) h hSame
  exact ⟨hOutcome, hFetched, hSame⟩

theorem tour_cache_cons (c : Chain) (cache : Cache κ) (s : Registration κ)
    (rest : List (Registration κ)) :
    (tour c cache (s :: rest)).cache = (tour c (s.walk c cache).cache rest).cache := rfl

theorem tour_entries_cons (c : Chain) (cache : Cache κ) (s : Registration κ)
    (rest : List (Registration κ)) : (tour c cache (s :: rest)).entries =
      ⟨s.kind, (s.walk c cache).outcome⟩ :: (tour c (s.walk c cache).cache rest).entries := rfl

theorem tour_entries (hKinds : (rs.map (·.kind)).Nodup) (h : cache.WellKinded) :
    (tour c cache rs).entries = rs.map fun r => ⟨r.kind, (r.walk c cache).outcome⟩ := by
  induction rs generalizing cache with
  | nil => rfl
  | cons s rest ih =>
    obtain ⟨hNew, hRestKinds⟩ := List.nodup_cons.mp hKinds
    have hNext := (Registration.walk_trace (r := s) c h).wellKinded h
    rw [tour_entries_cons, ih hRestKinds hNext, List.map_cons]
    refine congrArg (List.cons _) (List.map_congr_left fun r hr => ?_)
    have hKind : s.kind ≠ r.kind := fun hSame => hNew (List.mem_map.mpr ⟨r, hr, hSame.symm⟩)
    rw [(walk_after c h hKind).1]

theorem resolve_of_fault {fault : Chain.Fault}
    (hFault : Chain.ofTarget resolver.root target = .error fault) (cache : Cache κ) :
    resolver.resolve cache target =
      ⟨.error (.ambiguous target.text fault.message), cache, []⟩ := by
  rw [resolve, hFault]

theorem outcome_of_chain (hChain : Chain.ofTarget resolver.root target = .ok c)
    (hKinds : resolver.kinds.Nodup) (h : cache.WellKinded) :
    (resolver.resolve cache target).outcome =
      .ok ⟨c.target, resolver.registrations.map fun r => ⟨r.kind, (r.walk c cache).outcome⟩⟩ := by
  rw [resolve, hChain]
  exact congrArg (fun entries => Except.ok (Configuration.mk c.target entries))
    (tour_entries hKinds h)

theorem shows_walk (hChain : Chain.ofTarget resolver.root target = .ok c)
    (hKinds : resolver.kinds.Nodup) (hr : r ∈ resolver.registrations) (h : cache.WellKinded) :
    (resolver.resolve cache target).outcomeOf r.kind = some (r.walk c cache).outcome ∧
      (resolver.resolve cache target).fetchedFor r.kind = (r.walk c cache).fetched ∧
      ∀ place, (resolver.resolve cache target).cache.stored? (r.key place) =
        (r.walk c cache).cache.stored? (r.key place) := by
  obtain ⟨before, hBefore, hStored, hOutcome, hFetched, hAfter⟩ :=
    exists_walk hChain hKinds hr h
  obtain ⟨hOutcomes, hFetches, hEntries⟩ := Registration.walk_congr c hBefore h hStored
  exact ⟨hOutcome.trans (congrArg some hOutcomes), hFetched.trans hFetches,
    fun place => (hAfter place).trans (hEntries place)⟩

end Resolver

end Heritage
