import Heritage.Proofs.World

/-!
# What places settle on

When every fetch of a node has one outcome, a place settles on one fragment: what the contribution
of its node makes of the fragment that the place above it settles on. Fetching may fail now and
then; whatever is stored is what its place settles on, and it does not depend on who stored it.

* `Extractor.Settles.unique`: a place settles on one fragment at most;
* `Extractor.Settles.fold_eq`: along a chain, that is the fold of the distinct nodes;
* `World.sound_run`, `World.entry_eq_fold`: the cache holds what places settle on, the fold along
  any chain that has the place;
* `World.fold_of_ok`: a resolution that succeeds has folded the distinct nodes of its chain.
-/

namespace Heritage

/-! ## Extractors that may fail -/

namespace Extractor

variable {F : Type} {e base : Extractor F}

/-- The extractor `e` fetches what `base` does, or fails. -/
structure Within (e base : Extractor F) : Prop where
  initial : e.initial = base.initial
  merge : e.merge = base.merge
  contribution : ∀ node, e.contribution node = base.contribution node ∨
    ∃ failure, e.contribution node = .error failure

theorem Within.refl (e : Extractor F) : e.Within e :=
  ⟨rfl, rfl, fun _ => Or.inl rfl⟩

theorem Within.step_eq_ok (h : e.Within base) {parent next : F} {node : Node}
    (hStep : e.step parent node = .ok next) : base.step parent node = .ok next := by
  have hApply : e.apply parent = base.apply parent := by
    funext child
    cases child with
    | none => rfl
    | some child => rw [apply, apply, h.merge]
  rcases h.contribution node with hSame | ⟨failure, hError⟩
  · rw [step, ← hApply, ← hSame]
    exact hStep
  · rw [step, hError] at hStep
    cases hStep

/-- `e.Settles (some place) f`: up to `place`, chains resolve to `f`. With `none` for the place it
is what all of them start with. -/
inductive Settles (e : Extractor F) : Option Place → F → Prop
  | start : Settles e none e.initial
  | next {place : Place} {node : Node} {f g : F} (hFits : place.Fits node)
      (hAbove : Settles e place.parent f) (hStep : e.step f node = .ok g) :
      Settles e (some place) g

end Extractor

theorem Place.Fits.byName_eq {place : Place} {node node' : Node} (h : place.Fits node)
    (h' : place.Fits node') : node.byName = node'.byName := by
  cases place <;> cases node <;> cases node' <;> simp_all [Place.Fits, Node.byName]

namespace Extractor

variable {F : Type} {e : Extractor F}

theorem Settles.unique (hName : e.ByName) {place? : Option Place} {f g : F}
    (h : e.Settles place? f) (h' : e.Settles place? g) : f = g := by
  induction h generalizing g with
  | start =>
    cases h'
    rfl
  | next hFits hAbove hStep ih =>
    cases h' with
    | next hFits' hAbove' hStep' =>
      rw [← ih hAbove', hName.step_eq (hFits'.byName_eq hFits), hStep] at hStep'
      exact Except.ok.inj hStep'

/-- The last of linked places settles on the fold of the distinct nodes down to it. -/
theorem Settles.fold_eq (hName : e.ByName) {stages : List (Place × Node)}
    (hLinked : Linked none (stages.map Prod.fst)) (hFits : ∀ stage ∈ stages, stage.1.Fits stage.2)
    (hNodes : OneNodeEach stages) {f : F} (h : e.Settles (stages.map Prod.fst).getLast? f) :
    e.foldFrom e.initial (stages.eraseDups.map Prod.snd) = .ok f := by
  induction stages using List.reverseRecOn generalizing f with
  | nil =>
    cases h
    rfl
  | append_singleton front stage ih =>
    have hFront : ∀ other ∈ front, other ∈ front ++ [stage] := fun _ => List.mem_append_left _
    have hStage : stage ∈ front ++ [stage] := by simp
    rw [List.map_append, List.map_singleton] at hLinked h
    obtain ⟨hFrontLinked, hLast, -⟩ := linked_append.mp hLinked
    rw [Option.or_none] at hLast
    have ih := @ih hFrontLinked (fun other hMem => hFits other (hFront other hMem))
      fun a ha b hb => hNodes a (hFront a ha) b (hFront b hb)
    rw [List.getLast?_concat] at h
    by_cases hMem : stage ∈ front
    · have hSame : some stage.1 = (front.map Prod.fst).getLast? :=
        (hLinked.getLast?_of_mem (List.mem_map_of_mem hMem)).symm
      rw [eraseDups_concat_of_mem hMem]
      exact ih (hSame ▸ h)
    · have hParent : stage.1.parent = (front.map Prod.fst).getLast? := by
        rcases hLast with hSame | hParent
        · obtain ⟨other, hOther, hPlace⟩ := List.mem_map.mp (List.mem_of_getLast? hSame.symm)
          exact absurd (hNodes other (hFront other hOther) stage hStage hPlace ▸ hOther) hMem
        · exact hParent
      cases h with
      | @next _ node above _ hNodeFits hAbove hStep =>
        have hFold := ih (hParent ▸ hAbove)
        rw [eraseDups_concat_of_not_mem hMem, List.map_append, List.map_singleton,
          foldFrom_concat hFold, hName.step_eq ((hFits stage hStage).byName_eq hNodeFits)]
        exact hStep

end Extractor

/-! ## Walks in a sound cache -/

variable {κ : Type} [FragmentFamily κ] [DecidableEq κ]

namespace Registration

variable {r : Registration κ} {m : Member} {base : Extractor (Fragment r.kind)}
  {current : Fragment r.kind} {cache : Cache κ} {stages : List (Place × Node)} {w : Walk κ r.kind}

/-- Every entry of the registration is what its place settles on. -/
def Sound (r : Registration κ) (base : Extractor (Fragment r.kind)) (cache : Cache κ) : Prop :=
  ∀ place entry, cache.stored? (r.key place) = some entry →
    ∃ f, entry = ⟨r.kind, f⟩ ∧ base.Settles (some place) f

theorem Sound.settles (h : r.Sound base cache) {place : Place} {f : Fragment r.kind}
    (hStored : cache.stored? (r.key place) = some ⟨r.kind, f⟩) : base.Settles (some place) f := by
  obtain ⟨g, hEntry, hSettles⟩ := h place _ hStored
  cases hEntry
  exact hSettles

theorem Sound.store (h : r.Sound base cache) {place : Place} {f : Fragment r.kind}
    (hMissing : cache.stored? (r.key place) = none) (hSettles : base.Settles (some place) f) :
    r.Sound base (cache.store (r.key place) ⟨r.kind, f⟩) := by
  intro other entry hEntry
  by_cases hPlace : place = other
  · subst hPlace
    rw [Cache.stored?_store_self _ hMissing] at hEntry
    exact ⟨f, (Option.some.inj hEntry).symm, hSettles⟩
  · rw [Cache.stored?_store_of_ne _ fun hKey => hPlace (key_injective hKey)] at hEntry
    exact h other entry hEntry

/-- What is known has been fetched, so with fetches that never change a walk stops where the plain
fold does. -/
theorem Sound.stop?_eq (h : r.Sound r.extractor cache) (hName : r.extractor.ByName)
    {place : Place} {node : Node} (hFits : place.Fits node) :
    r.stop? cache (some place, node) = r.extractor.failure? node := by
  cases hStored : cache.stored? (r.key place) with
  | none => exact stop?_of_missing hStored
  | some entry =>
    obtain ⟨f, -, hSettles⟩ := h place entry hStored
    cases hSettles with
    | next hFits' hAbove hStep =>
      rw [stop?_of_stored hStored, hName.failure?_eq (hFits.byName_eq hFits')]
      exact (Extractor.failure?_eq_none_of_step hStep).symm

/-- A walk down linked places keeps a cache sound. When it succeeds, the member was merged into
what the last place settles on. -/
theorem Trace.sound (h : r.Trace m current cache stages w) (hWithin : r.extractor.Within base)
    {prior : Option Place} (hLinked : Linked prior (stages.map Prod.fst))
    (hFits : ∀ stage ∈ stages, stage.1.Fits stage.2)
    (hPrior : ∀ {above}, prior = some above → cache.contains (r.key above))
    (hCurrent : base.Settles prior current) (hSound : r.Sound base cache) :
    r.Sound base w.cache ∧ ∀ f, w.outcome = .ok f → ∃ g,
      base.Settles ((stages.map Prod.fst).getLast?.or prior) g ∧
        base.step g (.member m) = .ok f := by
  induction h generalizing prior with
  | arrived current cache =>
    exact ⟨hSound, fun f hOk => ⟨current, hCurrent, hWithin.step_eq_ok hOk⟩⟩
  | @known current next cache place node rest w hStored hRest ih =>
    rw [List.map_cons, getLast?_cons_or]
    exact ih hLinked.2 (fun stage hStage => hFits stage (List.mem_cons_of_mem _ hStage))
      (contains_of_some_eq (Cache.contains_of_stored hStored)) (hSound.settles hStored) hSound
  | failed hMissing hStep =>
    refine ⟨hSound, fun f hOk => ?_⟩
    cases hOk
  | @fetched current next cache place node rest w hMissing hStep hRest ih =>
    have hParent : place.parent = prior := parent_of_missing hLinked.1 hPrior hMissing
    have hSettles : base.Settles (some place) next :=
      .next (hFits _ List.mem_cons_self) (hParent ▸ hCurrent) (hWithin.step_eq_ok hStep)
    have hCounted : r.Sound base cache.countMiss := hSound
    rw [List.map_cons, getLast?_cons_or]
    exact ih hLinked.2 (fun stage hStage => hFits stage (List.mem_cons_of_mem _ hStage))
      (contains_of_some_eq (Cache.contains_store_self _ _ _)) hSettles
      (hCounted.store hMissing hSettles)

/-- A walk keeps a cache sound, and folds the distinct nodes of its chain when it succeeds. -/
theorem walk_sound (c : Chain) (hKinds : cache.WellKinded) (hName : base.ByName)
    (hWithin : r.extractor.Within base) (hSound : r.Sound base cache) :
    r.Sound base (r.walk c cache).cache ∧ ∀ f, (r.walk c cache).outcome = .ok f →
      base.foldFrom base.initial (c.stages.eraseDups.map Prod.snd ++ [.member c.member]) =
        .ok f := by
  have hStart : base.Settles none r.extractor.initial := hWithin.initial ▸ .start
  obtain ⟨hKept, hOutcome⟩ := (walk_trace c hKinds).sound hWithin c.stages_linked
    (fun _ => Chain.stages_fits) (fun hNone => by cases hNone) hStart hSound
  refine ⟨hKept, fun f hOk => ?_⟩
  obtain ⟨g, hSettles, hMember⟩ := hOutcome f hOk
  rw [Option.or_none] at hSettles
  have hFold := hSettles.fold_eq hName c.stages_linked (fun _ => Chain.stages_fits)
    c.stages_oneNodeEach
  rw [Extractor.foldFrom_concat hFold]
  exact hMember

end Registration

/-! ## Worlds -/

namespace World

variable {events : List (Event κ)} {r : Registration κ} {base : Extractor (Fragment r.kind)}

theorem sound_run (hr : (empty.run events).Registers r) (hName : base.ByName)
    (hWithin : ∀ i target answers, .resolve i target answers ∈ events → (answers r).Within base) :
    r.Sound base (empty.run events).cache := by
  refine entries_induct hr (I := fun entries => ∀ place entry, entries place = some entry →
    ∃ f, entry = ⟨r.kind, f⟩ ∧ base.Settles (some place) f) ?_ ?_
  · intro place entry hNone
    cases hNone
  · intro i target answers hMem c cache hKinds hSound
    exact (Registration.walk_sound (r := r.answering (answers r)) c hKinds hName
      (hWithin i target answers hMem) hSound).1

/-- Along any chain that has its place, an entry is the fold of the distinct nodes down to there. -/
theorem entry_eq_fold (hr : (empty.run events).Registers r) (hName : base.ByName)
    (hWithin : ∀ i target answers, .resolve i target answers ∈ events → (answers r).Within base)
    {c : Chain} {front back : List (Place × Node)} {place : Place} {node : Node}
    (hStages : c.stages = front ++ (place, node) :: back) {entry : AnyFragment κ}
    (hEntry : (empty.run events).cache.stored? (r.key place) = some entry) :
    ∃ f, entry = ⟨r.kind, f⟩ ∧
      base.foldFrom base.initial ((front ++ [(place, node)]).eraseDups.map Prod.snd) = .ok f := by
  obtain ⟨f, rfl, hSettles⟩ := sound_run hr hName hWithin place entry hEntry
  have hCut : c.stages = (front ++ [(place, node)]) ++ back := by simp [hStages]
  have hSub : ∀ stage ∈ front ++ [(place, node)], stage ∈ c.stages := by
    intro stage hMem
    rw [hCut]
    exact List.mem_append_left back hMem
  have hLinked : Linked none ((front ++ [(place, node)]).map Prod.fst) := by
    have hAll := c.stages_linked
    rw [hCut, List.map_append] at hAll
    exact (linked_append.mp hAll).1
  refine ⟨f, rfl, Extractor.Settles.fold_eq hName hLinked
    (fun stage hMem => Chain.stages_fits (hSub stage hMem))
    (fun a ha b hb => c.stages_oneNodeEach a (hSub a ha) b (hSub b hb)) ?_⟩
  rw [List.map_append, List.map_singleton, List.getLast?_concat]
  exact hSettles

variable {b : ResolverBuilder κ} {target : Target} {c : Chain} {answers : Answers κ}

/-- A registered kind is resolved or fails; it is resolved to the fold of the distinct nodes. -/
theorem fold_of_ok (hb : b ∈ (empty.run events).builders) (hr : r ∈ b.registrations)
    (hName : base.ByName)
    (hWithin : ∀ i target answers, .resolve i target answers ∈ events → (answers r).Within base)
    (hc : Chain.ofTarget b.root target = .ok c) (hNow : (answers r).Within base) :
    ∃ outcome, ((b.build.answering answers).resolve (empty.run events).cache target).outcomeOf
        r.kind = some outcome ∧
      ∀ f, outcome = .ok f →
        base.foldFrom base.initial (c.stages.eraseDups.map Prod.snd ++ [.member c.member]) =
          .ok f := by
  have hSound := sound_run ⟨b, hb, hr⟩ hName hWithin
  obtain ⟨before, hBefore, hStored, hOutcome, -, -⟩ := Resolver.exists_walk
    (r := r.answering (answers r)) hc (answering_kinds_nodup hb answers)
    (Resolver.answering_mem b.build hr answers) (cache_wellKinded events)
  have hSoundBefore : r.Sound base before := by
    intro place entry hEntry
    exact hSound place entry ((hStored place).symm.trans hEntry)
  exact ⟨_, hOutcome, (Registration.walk_sound (r := r.answering (answers r)) c hBefore hName hNow
    hSoundBefore).2⟩

end World

end Heritage
