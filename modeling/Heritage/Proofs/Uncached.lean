import Heritage.Proofs.Settled

/-!
# Resolutions and plain folds

With fetches that never change, nobody can tell a resolution in a shared cache from the plain fold
over the chain of the target, `Extractor.fold`. What other registrations fetch plays no part in it.

* `outcome_eq_fold`: the outcome of a registered kind, after any events;
* `Resolver.outcomeOf_eq_fold_distinct`, `World.outcomeOf_eq_fold_distinct`: the same for all
  chains, with the fold over their distinct nodes.

A package with a leading dot has a chain that passes the top level twice. The plain fold takes in
the contribution of the top level twice, and a resolution does so once, so `outcome_eq_fold` leaves
such chains out.
-/

namespace Heritage

variable {κ : Type} [FragmentFamily κ] [DecidableEq κ]

theorem Registration.Sound.findSome?_stop?_eq {r : Registration κ} {cache : Cache κ}
    (h : r.Sound r.extractor cache) (hName : r.extractor.ByName) (c : Chain) :
    c.visits.findSome? (r.stop? cache) = c.nodes.findSome? r.extractor.failure? := by
  rw [← c.visits_nodes, List.findSome?_map]
  refine findSome?_congr fun visit hVisit => ?_
  rcases List.mem_append.mp hVisit with hStage | hMember
  · obtain ⟨stage, hMem, rfl⟩ := List.mem_map.mp hStage
    exact h.stop?_eq hName (Chain.stages_fits hMem)
  · rw [List.mem_singleton.mp hMember]
    rfl

theorem Resolver.outcomeOf_eq_fold_distinct {resolver : Resolver κ} {cache : Cache κ}
    {r : Registration κ} {target : Target} {c : Chain}
    (hc : Chain.ofTarget resolver.root target = .ok c) (hKinds : resolver.kinds.Nodup)
    (hr : r ∈ resolver.registrations) (hCache : cache.WellKinded) (hName : r.extractor.ByName)
    (hSound : r.Sound r.extractor cache) :
    (resolver.resolve cache target).outcomeOf r.kind =
      some (r.extractor.foldFrom r.extractor.initial c.nodes.eraseDups) := by
  obtain ⟨before, hBefore, hStored, hOutcome, -, -⟩ := exists_walk hc hKinds hr hCache
  rw [hOutcome]
  congr 1
  cases hWalk : (r.walk c before).outcome with
  | ok f =>
    have hSoundBefore : r.Sound r.extractor before := fun place entry hEntry =>
      hSound place entry ((hStored place).symm.trans hEntry)
    rw [Chain.nodes_eraseDups hc]
    exact ((Registration.walk_sound c hBefore hName (.refl _) hSoundBefore).2 f hWalk).symm
  | error failure =>
    rw [hWalk] at hOutcome
    have hStop := (outcomeOf_eq_error_iff hc hKinds hr hCache).mp hOutcome
    rw [hSound.findSome?_stop?_eq hName, ← findSome?_eraseDups] at hStop
    exact (Extractor.foldFrom_eq_error_iff.mpr hStop).symm

theorem World.outcomeOf_eq_fold_distinct {events : List (Event κ)} {b : ResolverBuilder κ}
    (hb : b ∈ (World.empty.run events).builders) {r : Registration κ} (hr : r ∈ b.registrations)
    (hName : r.extractor.ByName)
    (hFixed : ∀ i target answers, .resolve i target answers ∈ events → answers r = r.extractor)
    {target : Target} {c : Chain} (hc : Chain.ofTarget b.root target = .ok c) {answers : Answers κ}
    (hNow : answers r = r.extractor) :
    ((b.build.answering answers).resolve (World.empty.run events).cache target).outcomeOf r.kind =
      some (r.extractor.foldFrom r.extractor.initial c.nodes.eraseDups) := by
  have hMem := Resolver.answering_mem b.build hr answers
  rw [hNow] at hMem
  have hSound : r.Sound r.extractor (World.empty.run events).cache := by
    refine sound_run ⟨b, hb, hr⟩ hName fun i target answers hResolve => ?_
    rw [hFixed i target answers hResolve]
    exact .refl r.extractor
  exact Resolver.outcomeOf_eq_fold_distinct (r := r) hc (answering_kinds_nodup hb answers) hMem
    (cache_wellKinded events) hName hSound

/-- Let the fetches of a registered extractor be fixed, and let it know types by their names. After
any events, the outcome of its kind for a target is the plain fold over the chain of the target, be
it a fragment or a failure. -/
theorem outcome_eq_fold (events : List (Event κ)) {b : ResolverBuilder κ}
    (hb : b ∈ (World.empty.run events).builders) {r : Registration κ} (hr : r ∈ b.registrations)
    (hName : r.extractor.ByName)
    (hFixed : ∀ i target answers, .resolve i target answers ∈ events → answers r = r.extractor)
    {target : Target} {c : Chain} (hc : Chain.ofTarget b.root target = .ok c)
    (hDot : c.package.toList.head? ≠ some '.') (answers : Answers κ)
    (hNow : answers r = r.extractor) :
    ((b.build.answering answers).resolve (World.empty.run events).cache target).outcomeOf r.kind =
      some (r.extractor.fold c) := by
  have hWithin : ∀ i target answers, .resolve i target answers ∈ events →
      (answers r).Within r.extractor := by
    intro i target answers hMem
    rw [hFixed i target answers hMem]
    exact .refl r.extractor
  have hWithinNow : (answers r).Within r.extractor := by
    rw [hNow]
    exact .refl r.extractor
  have hSelf : r.answering (answers r) = r := by
    rw [hNow]
    rfl
  have hSound := World.sound_run ⟨b, hb, hr⟩ hName hWithin
  obtain ⟨outcome, hOutcome, hFold⟩ := World.fold_of_ok hb hr hName hWithin hc hWithinNow
  rw [hOutcome, Extractor.fold]
  congr 1
  cases outcome with
  | ok f =>
    have hNodes : c.stages.eraseDups.map Prod.snd ++ [.member c.member] = c.nodes := by
      rw [eraseDups_of_nodup (Chain.stages_nodup hDot), Chain.nodes_eq_stages]
    rw [← hNodes]
    exact (hFold f rfl).symm
  | error failure =>
    have hStop := (World.outcomeOf_eq_error_iff hb hr hc answers).mp hOutcome
    rw [hSelf, hSound.findSome?_stop?_eq hName] at hStop
    exact (Extractor.foldFrom_eq_error_iff.mpr hStop).symm

/-- The second resolution of a target, which finds the whole chain in the cache. -/
theorem outcome_eq_fold_again :
    let answers : Answers Kind := Registration.extractor
    let events := Fixture.trailEvents Fixture.smallTarget answers
    Fixture.trailBuilder ∈ (World.empty.run events).builders ∧
      Fixture.trailExtractor.ByName ∧
      Chain.ofTarget none Fixture.smallTarget = .ok Fixture.smallChain ∧
      Fixture.smallChain.package.toList.head? ≠ some '.' ∧
      ((Fixture.trailBuilder.build.answering answers).resolve (World.empty.run events).cache
        Fixture.smallTarget).outcomeOf Kind.trail =
          some (Fixture.trailExtractor.fold Fixture.smallChain) := by
  intro answers events
  have hMem : Fixture.trailBuilder ∈ (World.empty.run events).builders := by
    simp [events, Fixture.trailEvents_builders]
  have hDot : Fixture.smallChain.package.toList.head? ≠ some '.' := by decide
  refine ⟨hMem, Fixture.trailExtractor_byName, Fixture.smallChain_ofTarget, hDot, ?_⟩
  exact outcome_eq_fold events hMem (r := Fixture.trailRegistration) List.mem_cons_self
    Fixture.trailExtractor_byName
    (fun _ _ _ hResolve => by rw [Fixture.answers_of_resolve_mem_trailEvents hResolve])
    Fixture.smallChain_ofTarget hDot answers rfl

end Heritage
