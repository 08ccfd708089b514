import Heritage.Proofs.World

/-!
# What is known of a chain

An entry is stored only behind the entry of the place above it, whoever walks and whatever fails on
the way. So what is known of a chain is an initial part of it, and a walk fetches what comes behind.

* `World.closed_run`: with a place, the place above it is known;
* `fetched_behind_known`: the fetches of a resolution, and of one that repeats it.
-/

namespace Heritage

variable {κ : Type} [FragmentFamily κ] [DecidableEq κ]

namespace Registration

variable {r : Registration κ} {m : Member} {current : Fragment r.kind} {cache : Cache κ}
  {stages : List (Place × Node)} {w : Walk κ r.kind}

/-- With every place, the place above it is known. -/
def Closed (r : Registration κ) (cache : Cache κ) : Prop :=
  ∀ place above, place.parent = some above → cache.contains (r.key place) →
    cache.contains (r.key above)

theorem Closed.store {cache : Cache κ} (h : r.Closed cache) {place : Place} (f : AnyFragment κ)
    (hAbove : ∀ above, place.parent = some above → cache.contains (r.key above)) :
    r.Closed (cache.store (r.key place) f) := by
  have hKept : ∀ other, cache.contains (r.key other) →
      (cache.store (r.key place) f).contains (r.key other) := by
    intro other hOther
    obtain ⟨entry, hEntry⟩ := Cache.contains_eq_true_iff.mp hOther
    exact Cache.contains_of_stored (Cache.stored?_store_mono hEntry)
  intro other above hParent hOther
  by_cases hPlace : place = other
  · subst hPlace
    exact hKept above (hAbove above hParent)
  · rw [contains_store_of_ne cache f hPlace] at hOther
    exact hKept above (h other above hParent hOther)

/-- A walk down linked places keeps a cache closed, if the place before them is known. -/
theorem Trace.closed (h : r.Trace m current cache stages w) {prior : Option Place}
    (hLinked : Linked prior (stages.map Prod.fst))
    (hPrior : ∀ {above}, prior = some above → cache.contains (r.key above))
    (hClosed : r.Closed cache) : r.Closed w.cache := by
  induction h generalizing prior with
  | arrived current cache => exact hClosed
  | known hStored hRest ih =>
    exact ih hLinked.2 (contains_of_some_eq (Cache.contains_of_stored hStored)) hClosed
  | failed hMissing hStep => exact hClosed
  | @fetched current next cache place node rest w hMissing hStep hRest ih =>
    have hParent : place.parent = prior := parent_of_missing hLinked.1 hPrior hMissing
    have hCounted : r.Closed cache.countMiss := hClosed
    refine ih hLinked.2 (contains_of_some_eq (Cache.contains_store_self _ _ _)) ?_
    exact hCounted.store _ fun above hAbove => hPrior (hParent.symm.trans hAbove)

/-- In a closed cache, what is known of a chain is an initial part of it. -/
theorem Closed.pairwise (h : r.Closed cache) (c : Chain) :
    c.stages.Pairwise fun earlier later =>
      cache.contains (r.key later.1) → cache.contains (r.key earlier.1) :=
  List.pairwise_map.mp (c.stages_linked.pairwise h)

end Registration

namespace World

/-- With every place that is known for a registration, the place above it is. -/
theorem closed_run {events : List (Event κ)} {r : Registration κ}
    (hr : (empty.run events).Registers r) : r.Closed (empty.run events).cache := by
  refine entries_induct hr (I := fun entries => ∀ place above, place.parent = some above →
    (entries place).isSome → (entries above).isSome) ?_ ?_
  · intro place above _ hNone
    cases hNone
  · intro i target answers hMem c cache hKinds hClosed
    have hTrace := Registration.walk_trace (r := r.answering (answers r)) c hKinds
    exact hTrace.closed c.stages_linked (fun hNone => by cases hNone) hClosed

end World

/-- What is known of a chain for a registered extractor is an initial part of it. A resolution
fetches, for the extractor, the distinct nodes behind that part in their order and then the member;
the first failure ends this. When it has succeeded, later resolutions of the target fetch the member
only, whatever has happened in between. -/
theorem fetched_behind_known (events : List (Event κ)) {i : Nat} {b : ResolverBuilder κ}
    (hb : (World.empty.run events).builders[i]? = some b) {r : Registration κ}
    (hr : r ∈ b.registrations) {target : Target} {c : Chain}
    (hc : Chain.ofTarget b.root target = .ok c) (answers : Answers κ) :
    let cache := (World.empty.run events).cache
    let known := fun stage : Place × Node => cache.contains (r.key stage.1)
    let resolution := (b.build.answering answers).resolve cache target
    (∀ chain : Chain, chain.stages.Pairwise fun earlier later => known later → known earlier) ∧
      resolution.fetchedFor r.kind = through (answers r).fails
        ((c.stages.eraseDups.dropWhile known).map Prod.snd ++ [.member c.member]) ∧
      (resolution.fetchedFor r.kind).Nodup ∧
      ∀ fragment, resolution.outcomeOf r.kind = some (.ok fragment) →
        ∀ later b' answers',
          let world := World.empty.run (events ++ .resolve i target answers :: later)
          b' ∈ world.builders → r ∈ b'.registrations → Chain.ofTarget b'.root target = .ok c →
          ((b'.build.answering answers').resolve world.cache target).fetchedFor r.kind =
            [.member c.member] := by
  intro cache known resolution
  have hMem : b ∈ (World.empty.run events).builders := List.mem_of_getElem? hb
  have hClosed : r.Closed cache := World.closed_run ⟨b, hMem, hr⟩
  have hFetched : resolution.fetchedFor r.kind = through (answers r).fails
      ((c.stages.eraseDups.dropWhile known).map Prod.snd ++ [.member c.member]) := by
    -- known stages come first, so the missing ones are what is left behind them
    have hInitial : c.stages.eraseDups.filter (fun stage => !known stage) =
        c.stages.eraseDups.dropWhile known :=
      filter_not_eq_dropWhile ((hClosed.pairwise c).sublist (eraseDups_sublist _))
    rw [← hInitial, ← eraseDups_filter]
    exact World.fetchedFor_eq hMem hr hc answers
  refine ⟨hClosed.pairwise, hFetched, ?_, ?_⟩
  · have hDistinct : (c.stages.eraseDups.map Prod.snd ++ [Node.member c.member]).Nodup := by
      rw [← Chain.nodes_eraseDups hc]
      exact eraseDups_nodup c.nodes
    rw [hFetched]
    refine (hDistinct.sublist ?_).sublist (through_sublist _ _)
    exact ((List.dropWhile_sublist _).map _).append (List.Sublist.refl _)
  · intro fragment hOk later b' answers' world hb' hr' hc'
    have hNone : c.stages.filter (fun stage => !world.cache.contains (r.key stage.1)) = [] := by
      refine List.filter_eq_nil_iff.mpr fun stage hStage => ?_
      have hNow := World.contains_of_ok hMem hr hc answers hOk stage hStage
      have hLater : world.cache.contains (r.key stage.1) :=
        World.contains_after_resolve hb later hNow
      simp [hLater]
    rw [World.fetchedFor_eq hb' hr' hc' answers', hNone]
    simp [through]

/-- The second resolution of a target fetches its member only. -/
theorem fetched_behind_known_again :
    let answers : Answers Kind := Registration.extractor
    let first : World Kind := World.empty.run [.start, .register 0 .trail Fixture.trailExtractor]
    let second := World.empty.run (Fixture.trailEvents Fixture.smallTarget answers)
    first.builders[0]? = some Fixture.trailBuilder ∧
      Chain.ofTarget none Fixture.smallTarget = .ok Fixture.smallChain ∧
      (∃ fragment, ((Fixture.trailBuilder.build.answering answers).resolve first.cache
        Fixture.smallTarget).outcomeOf Kind.trail = some (.ok fragment)) ∧
      ((Fixture.trailBuilder.build.answering answers).resolve second.cache
        Fixture.smallTarget).fetchedFor Kind.trail = [.member ⟨"org.Base", "runs"⟩] := by
  intro answers first second
  have hGet : first.builders[0]? = some Fixture.trailBuilder := rfl
  have hOk : ∃ fragment, ((Fixture.trailBuilder.build.answering answers).resolve first.cache
      Fixture.smallTarget).outcomeOf Kind.trail = some (.ok fragment) := ⟨_, rfl⟩
  refine ⟨hGet, Fixture.smallChain_ofTarget, hOk, ?_⟩
  obtain ⟨fragment, hOk⟩ := hOk
  obtain ⟨-, -, -, hAgain⟩ := fetched_behind_known
    [.start, .register 0 .trail Fixture.trailExtractor] hGet (r := Fixture.trailRegistration)
    List.mem_cons_self Fixture.smallChain_ofTarget answers
  exact hAgain fragment hOk [] Fixture.trailBuilder answers List.mem_cons_self List.mem_cons_self
    Fixture.smallChain_ofTarget

end Heritage
