import Heritage.Proofs.Settled

/-!
# Failures and retries

A fetch may fail at any time. What a failing walk leaves behind is what a walk would leave that was
meant to go no further than to the failing node, and the next walk begins there.

* `World.fetched_of_stop`: what a resolution fetches for a kind that fails;
* `World.contains_of_stop`: what it stores for the kind;
* `failures_leave_no_trace`: when a kind fails, what the failure leaves, and what later resolutions
  make of it.
-/

namespace Heritage

variable {κ : Type} [FragmentFamily κ] [DecidableEq κ]

namespace Registration

variable {r : Registration κ} {cache : Cache κ} {visit : Option Place × Node}

/-- Whether there is no entry for a visited node. There never is one for a member. -/
def lacks (r : Registration κ) (cache : Cache κ) (visit : Option Place × Node) : Bool :=
  visit.1.all fun place => !cache.contains (r.key place)

theorem lacks_of_stop? {failure : Failure} (h : r.stop? cache visit = some failure) :
    r.lacks cache visit = true := by
  obtain ⟨place?, node⟩ := visit
  cases place? with
  | none => rfl
  | some place =>
    unfold stop? at h
    split at h
    · cases h
    · rename_i hKnown
      simpa [lacks] using hKnown

theorem fails_of_stop? {failure : Failure} (h : r.stop? cache visit = some failure) :
    r.extractor.fails visit.2 = true := by
  unfold stop? at h
  split at h
  · cases h
  · rw [Extractor.fails, h]
    rfl

theorem not_fails_of_stop? (h : r.stop? cache visit = none) (hLacks : r.lacks cache visit = true) :
    r.extractor.fails visit.2 = false := by
  have hMissing : ¬ (visit.1.any fun place => cache.contains (r.key place)) = true := by
    obtain ⟨place?, node⟩ := visit
    cases place? <;> simp_all [lacks]
  rw [stop?, if_neg hMissing] at h
  rw [Extractor.fails, h]
  rfl

theorem eraseDups_lacking (m : Member) (stages : List (Place × Node)) :
    (((visitsOf m stages).filter (r.lacks cache)).eraseDups).map Prod.snd =
      ((stages.filter fun stage => !cache.contains (r.key stage.1)).eraseDups).map Prod.snd ++
        [.member m] := by
  let visitOf : Place × Node → Option Place × Node := fun stage => (some stage.1, stage.2)
  have hFilter : (visitsOf m stages).filter (r.lacks cache) =
      (stages.filter fun stage => !cache.contains (r.key stage.1)).map visitOf ++
        [(none, .member m)] := by
    rw [visitsOf, List.filter_append, List.filter_map]
    rfl
  have hMember : (none, .member m) ∉
      (stages.filter fun stage => !cache.contains (r.key stage.1)).map visitOf := by
    intro hMem
    obtain ⟨stage, -, hStage⟩ := List.mem_map.mp hMem
    cases hStage
  have hApart : ∀ a b : Place × Node, visitOf a = visitOf b → a = b := by
    intro a b hSame
    obtain ⟨hPlace, hNode⟩ := Prod.mk.inj hSame
    exact Prod.ext (Option.some.inj hPlace) hNode
  rw [hFilter, eraseDups_concat_of_not_mem hMember, eraseDups_map fun a _ b _ => hApart a b,
    List.map_append, List.map_map]
  rfl

end Registration

namespace World

variable {events : List (Event κ)} {b : ResolverBuilder κ} {r : Registration κ} {target : Target}
  {c : Chain} (hb : b ∈ (empty.run events).builders) (hr : r ∈ b.registrations)
  (hc : Chain.ofTarget b.root target = .ok c) (answers : Answers κ)
  {front back : List (Option Place × Node)} {visit : Option Place × Node} {failure : Failure}
  (hVisits : c.visits = front ++ visit :: back)
  (hFront : ∀ earlier ∈ front,
    (r.answering (answers r)).stop? (empty.run events).cache earlier = none)
  (hStop : (r.answering (answers r)).stop? (empty.run events).cache visit = some failure)

include hb hr hc hVisits hFront hStop

theorem outcome_of_stop :
    ((b.build.answering answers).resolve (empty.run events).cache target).outcomeOf r.kind =
      some (.error failure) := by
  refine (outcomeOf_eq_error_iff hb hr hc answers).mpr ?_
  rw [hVisits, List.findSome?_append, List.findSome?_eq_none_iff.mpr hFront, Option.none_or,
    List.findSome?_cons, hStop]

/-- Before a failing node the missing nodes are fetched, each once and in order, and behind it there
is no fetch. -/
theorem fetched_of_stop :
    ((b.build.answering answers).resolve (empty.run events).cache target).fetchedFor r.kind =
      ((front.filter (r.lacks (empty.run events).cache)).eraseDups).map Prod.snd ++ [visit.2] := by
  have hLacks : r.lacks (empty.run events).cache visit = true :=
    Registration.lacks_of_stop? (r := r.answering (answers r)) hStop
  have hFails : (answers r).fails visit.2 = true :=
    Registration.fails_of_stop? (r := r.answering (answers r)) hStop
  -- an earlier visit of the same node would have stopped the walk there
  have hNew : visit ∉ front.filter (r.lacks (empty.run events).cache) := by
    intro hMem
    rw [hFront visit (List.mem_of_mem_filter hMem)] at hStop
    cases hStop
  have hPasses : ∀ node ∈ ((front.filter
      (r.lacks (empty.run events).cache)).eraseDups).map Prod.snd,
      (answers r).fails node = false := by
    intro node hNode
    obtain ⟨earlier, hMem, rfl⟩ := List.mem_map.mp hNode
    obtain ⟨hEarlier, hMissing⟩ := List.mem_filter.mp (List.mem_eraseDups.mp hMem)
    exact Registration.not_fails_of_stop? (r := r.answering (answers r)) (hFront earlier hEarlier)
      hMissing
  have hFetched := fetchedFor_eq hb hr hc answers
  rw [← Registration.eraseDups_lacking, ← Chain.visits, hVisits, List.filter_append,
    List.filter_cons_of_pos hLacks, List.eraseDups_append] at hFetched
  have hRest : ∀ rest, (visit :: rest).removeAll
      (front.filter (r.lacks (empty.run events).cache)) =
        visit :: rest.removeAll (front.filter (r.lacks (empty.run events).cache)) := by
    intro rest
    refine List.filter_cons_of_pos ?_
    rw [List.elem_eq_contains, List.contains_eq_mem, decide_eq_false hNew]
    rfl
  rw [hFetched, hRest, List.eraseDups_cons, List.map_append, List.map_cons,
    through_append_of_forall hPasses, through_cons_of_pos hFails]

/-- Under the number of its registration, a kind that fails leaves entries for the nodes before the
failing one, and for no others. -/
theorem contains_of_stop {key : CacheKey κ} (hKey : key.registration = r.id) :
    ((b.build.answering answers).resolve (empty.run events).cache target).cache.contains key ↔
      (empty.run events).cache.contains key ∨
        ∃ place, some place ∈ front.map Prod.fst ∧ key = r.key place := by
  by_cases hKind : key.kind = r.kind
  · obtain ⟨place, rfl⟩ : ∃ place, key = r.key place := by
      refine ⟨key.place, ?_⟩
      rw [Registration.key, ← hKey, ← hKind]
    have hTake : c.visits.takeWhile (fun visit =>
        ((r.answering (answers r)).stop? (empty.run events).cache visit).isNone) = front := by
      rw [hVisits, List.takeWhile_append_of_pos fun earlier hMem => by simp [hFront earlier hMem],
        List.takeWhile_cons_of_neg (by simp [hStop]), List.append_nil]
    refine (contains_iff hb hr hc answers).trans ?_
    rw [hTake]
    refine or_congr_right ⟨fun hMem => ⟨_, hMem, rfl⟩, ?_⟩
    rintro ⟨place, hMem, hSame⟩
    rw [Registration.key_injective hSame]
    exact hMem
  · have hUntouched : ((b.build.answering answers).resolve
        (empty.run events).cache target).cache.contains key =
          (empty.run events).cache.contains key := by
      refine Cache.contains_congr (Resolver.resolve_stored?_of_ne (cache_wellKinded events) ?_)
      rintro _ hAnswering place rfl
      obtain ⟨s, hs, rfl⟩ := List.mem_map.mp hAnswering
      obtain rfl := (numbered_run events).unique s r ⟨b, hb, hs⟩ ⟨b, hb, hr⟩ hKey
      exact hKind rfl
    rw [hUntouched]
    refine ⟨Or.inl, fun hOr => hOr.resolve_right ?_⟩
    rintro ⟨place, -, rfl⟩
    exact hKind rfl

end World

/-- Let every fetch for a registered extractor fetch what `base` does, or fail, and let `base` know
types by their names. After any events, the kind fails exactly when a node of the chain is neither
known nor fetched now, and as the first of these. Then the missing nodes before it have been
fetched, and nothing behind it; their entries are what has been added under the number of the
registration. No entry is changed or removed. If there is no such node, the kind is resolved to the
fold of `base` over the distinct nodes of the chain, whatever has failed before. -/
theorem failures_leave_no_trace (events : List (Event κ)) {b : ResolverBuilder κ}
    (hb : b ∈ (World.empty.run events).builders) {r : Registration κ} (hr : r ∈ b.registrations)
    {base : Extractor (Fragment r.kind)} (hName : base.ByName)
    (hWithin : ∀ i target answers, .resolve i target answers ∈ events → (answers r).Within base)
    {target : Target} {c : Chain} (hc : Chain.ofTarget b.root target = .ok c) (answers : Answers κ)
    (hNow : (answers r).Within base) :
    let cache := (World.empty.run events).cache
    let stop? := (r.answering (answers r)).stop? cache
    let resolution := (b.build.answering answers).resolve cache target
    (∀ failure, resolution.outcomeOf r.kind = some (.error failure) ↔
        c.visits.findSome? stop? = some failure) ∧
      (∀ front visit back failure, c.visits = front ++ visit :: back →
        (∀ earlier ∈ front, stop? earlier = none) → stop? visit = some failure →
        resolution.outcomeOf r.kind = some (.error failure) ∧
          resolution.fetchedFor r.kind =
            ((front.filter (r.lacks cache)).eraseDups).map Prod.snd ++ [visit.2] ∧
          ∀ key, key.registration = r.id → (resolution.cache.contains key ↔
            cache.contains key ∨ ∃ place, some place ∈ front.map Prod.fst ∧ key = r.key place)) ∧
      (∀ key entry, cache.stored? key = some entry → resolution.cache.stored? key = some entry) ∧
      ((∀ visit ∈ c.visits, stop? visit = none) → ∃ f,
        base.foldFrom base.initial c.nodes.eraseDups = .ok f ∧
          resolution.outcomeOf r.kind = some (.ok f)) := by
  intro cache stop? resolution
  refine ⟨fun _ => World.outcomeOf_eq_error_iff hb hr hc answers, ?_, ?_, ?_⟩
  · intro front visit back failure hVisits hFront hStop
    exact ⟨World.outcome_of_stop hb hr hc answers hVisits hFront hStop,
      World.fetched_of_stop hb hr hc answers hVisits hFront hStop,
      fun key hKey => World.contains_of_stop hb hr hc answers hVisits hFront hStop hKey⟩
  · exact fun key entry => Resolver.resolve_stored?_mono (World.cache_wellKinded events)
  · intro hAll
    obtain ⟨outcome, hOutcome, hFold⟩ := World.fold_of_ok hb hr hName hWithin hc hNow
    cases outcome with
    | ok f =>
      rw [Chain.nodes_eraseDups hc]
      exact ⟨f, hFold f rfl, hOutcome⟩
    | error failure =>
      have hStop := (World.outcomeOf_eq_error_iff hb hr hc answers).mp hOutcome
      rw [List.findSome?_eq_none_iff.mpr hAll] at hStop
      cases hStop

namespace Fixture

/-- The extractor of trails while packages cannot be fetched. -/
def trailWithoutPackages : Extractor Trail :=
  { trailExtractor with ofPackage := fun name => .error (.duplicateKind name) }

/-- The answers of a time when no trails of packages can be fetched. -/
def answersWithoutPackages (r : Registration Kind) : Extractor (Fragment r.kind) :=
  match r with
  | ⟨_, .trail, _⟩ => trailWithoutPackages
  | r => r.extractor

theorem trailWithoutPackages_within : trailWithoutPackages.Within trailExtractor where
  initial := rfl
  merge := rfl
  contribution node := by
    cases node with
    | package name => exact Or.inr ⟨.duplicateKind name, rfl⟩
    | defaults | type | member => exact Or.inl rfl

theorem stop?_trailRegistration (cache : Cache Kind) (visit : Option Place × Node) :
    trailRegistration.stop? cache visit = none := by
  have hNone : trailRegistration.extractor.failure? visit.2 = none := by
    cases visit.2 <;> rfl
  rw [Registration.stop?, hNone, ite_self]

/-- A resolution that is repeated when packages can be fetched again. -/
theorem failures_leave_no_trace_of_packages :
    let events := trailEvents smallTarget answersWithoutPackages
    (∀ i target answers, .resolve i target answers ∈ events →
        (answers trailRegistration).Within trailExtractor) ∧
      Chain.ofTarget none smallTarget = .ok smallChain ∧
      ∃ f, trailExtractor.foldFrom trailExtractor.initial smallChain.nodes.eraseDups = .ok f ∧
        (trailBuilder.build.resolve (World.empty.run events).cache smallTarget).outcomeOf
          Kind.trail = some (.ok f) := by
  intro events
  have hWithin : ∀ i target answers, .resolve i target answers ∈ events →
      (answers trailRegistration).Within trailExtractor := by
    intro i target answers hMem
    rw [answers_of_resolve_mem_trailEvents hMem]
    exact trailWithoutPackages_within
  obtain ⟨-, -, -, hResolved⟩ := failures_leave_no_trace events (b := trailBuilder)
    (r := trailRegistration) (by simp [events, trailEvents_builders]) List.mem_cons_self
    trailExtractor_byName hWithin smallChain_ofTarget Registration.extractor (.refl _)
  exact ⟨hWithin, smallChain_ofTarget, hResolved fun visit _ => stop?_trailRegistration _ visit⟩

end Fixture

end Heritage
