import Heritage.ConfigurationTable
import Heritage.Proofs.TableKeys
import Heritage.Proofs.Tour
import Heritage.Proofs.World

/-!
# Registering and reading

A resolver resolves the kinds that were registered with it, and a configuration gives for each of
them what the walk of that registration has led to.

* `World.builder_kinds`: the kinds of a resolver are those that were asked for, each once;
* `Configuration.tells_outcomes`: all readers of a configuration say the same about the outcomes;
* `Configuration.table_mirrors`: so do the readers of its table, where the fragment that is found
  for a kind is always one of that kind;
* `readers_follow_registrations`: registrations, resolutions and readers together.
-/

namespace Heritage

variable {κ : Type} [FragmentFamily κ]

/-! ## Kinds of resolvers -/

/-- The kind that an event tries to register with a resolver. -/
def Event.requested? (i : Nat) : Event κ → Option κ
  | .register j kind _ => if j = i then some kind else none
  | _ => none

theorem Event.eq_register_of_requested? {i : Nat} {event : Event κ} {kind : κ}
    (h : event.requested? i = some kind) : ∃ extractor, event = .register i kind extractor := by
  cases event with
  | register j k extractor =>
    obtain ⟨hj, hk⟩ := Option.ite_none_right_eq_some.mp h
    obtain rfl := Option.some.inj hk
    exact ⟨extractor, by rw [hj]⟩
  | number | start | withRoot | resolve => cases h

/-- The kinds that somebody tried to register with a resolver, in order. -/
def requestedKinds (i : Nat) (events : List (Event κ)) : List κ :=
  events.filterMap (Event.requested? i)

variable [DecidableEq κ]

namespace World

variable {w : World κ} {i : Nat} {b : ResolverBuilder κ}

omit [DecidableEq κ] in
theorem set_builder (hb : w.builders[i]? = some b) (next : ResolverBuilder κ) :
    (w.builders.set i next)[i]? = some next := by
  obtain ⟨hi, -⟩ := List.getElem?_eq_some_iff.mp hb
  exact List.getElem?_set_self hi

theorem step_of_not_requested (hb : w.builders[i]? = some b) {event : Event κ}
    (hNone : event.requested? i = none) :
    ∃ next, (w.step event).builders[i]? = some next ∧ next.build.kinds = b.build.kinds := by
  cases event with
  | number => exact ⟨b, hb, rfl⟩
  | start =>
    obtain ⟨hi, -⟩ := List.getElem?_eq_some_iff.mp hb
    exact ⟨b, (List.getElem?_append_left hi).trans hb, rfl⟩
  | withRoot j root =>
    by_cases hj : j = i
    · subst hj
      refine ⟨b.withRoot root, ?_, rfl⟩
      simp only [step, hb]
      exact set_builder hb _
    · refine ⟨b, ?_, rfl⟩
      cases hOther : w.builders[j]? with
      | none => simp only [step, hOther, hb]
      | some other => simp only [step, hOther, List.getElem?_set_ne hj, hb]
  | register j kind extractor =>
    have hj : j ≠ i := by
      rintro rfl
      simp [Event.requested?] at hNone
    refine ⟨b, ?_, rfl⟩
    cases hOther : w.builders[j]? with
    | none => simp only [step, hOther, hb]
    | some other =>
      simp only [step, hOther]
      split
      · exact hb
      · exact (List.getElem?_set_ne hj).trans hb
  | resolve j target answers =>
    refine ⟨b, ?_, rfl⟩
    cases hOther : w.builders[j]? <;> simp only [step, hOther, hb]

theorem step_of_register (hb : w.builders[i]? = some b) {asked : List κ}
    (hKinds : b.build.kinds = asked.eraseDups) (kind : κ) (extractor : Extractor (Fragment kind)) :
    ∃ next, (w.step (.register i kind extractor)).builders[i]? = some next ∧
      next.build.kinds = (asked ++ [kind]).eraseDups := by
  have hTaken : kind ∈ b.registrations.map (·.kind) ↔ kind ∈ asked := by
    have hSame : b.registrations.map (·.kind) = asked.eraseDups := hKinds
    rw [hSame, List.mem_eraseDups]
  by_cases hAsked : kind ∈ asked
  · refine ⟨b, ?_, by rw [eraseDups_concat_of_mem hAsked, hKinds]⟩
    simp only [step, hb, ResolverBuilder.register, if_pos (hTaken.mpr hAsked)]
  · refine ⟨⟨b.root, b.registrations ++ [⟨w.nextId, kind, extractor⟩], w.nextId + 1⟩, ?_, ?_⟩
    · simp only [step, hb, ResolverBuilder.register, if_neg (mt hTaken.mp hAsked)]
      exact set_builder hb _
    · rw [eraseDups_concat_of_not_mem hAsked, ← hKinds]
      simp only [ResolverBuilder.build, Resolver.kinds, List.map_append, List.map_singleton]

theorem run_builder (hb : w.builders[i]? = some b) {asked : List κ}
    (hKinds : b.build.kinds = asked.eraseDups) (events : List (Event κ)) :
    ∃ next, (w.run events).builders[i]? = some next ∧
      next.build.kinds = (asked ++ requestedKinds i events).eraseDups := by
  induction events generalizing w b asked with
  | nil => exact ⟨b, hb, by rw [hKinds, requestedKinds, List.filterMap_nil, List.append_nil]⟩
  | cons event rest ih =>
    cases hRequested : event.requested? i with
    | none =>
      obtain ⟨next, hNext, hSame⟩ := step_of_not_requested hb hRequested
      rw [requestedKinds, List.filterMap_cons_none hRequested]
      exact ih hNext (hSame.trans hKinds)
    | some kind =>
      obtain ⟨extractor, rfl⟩ := Event.eq_register_of_requested? hRequested
      obtain ⟨next, hNext, hNextKinds⟩ := step_of_register hb hKinds kind extractor
      rw [requestedKinds, List.filterMap_cons_some hRequested, List.append_cons]
      exact ih hNext hNextKinds

/-- The kinds of a resolver are those that somebody tried to register with it since it was added. -/
theorem builder_kinds (early later : List (Event κ)) :
    ∃ b, (empty.run (early ++ .start :: later)).builders[(empty.run early).builders.length]? =
        some b ∧
      b.build.kinds = (requestedKinds (empty.run early).builders.length later).eraseDups := by
  have hRun : empty.run (early ++ .start :: later) =
      ((empty.run early).step .start).run later := run_append _ _ _
  have hNew : ((empty.run early).step .start).builders[(empty.run early).builders.length]? =
      some (.start (empty.run early).nextId) := List.getElem?_concat_length
  have hNone : (ResolverBuilder.start (empty.run early).nextId).build.kinds =
      ([] : List κ).eraseDups := rfl
  rw [hRun]
  exact run_builder hNew hNone later

end World

/-! ## Readers of a configuration -/

namespace Configuration

variable {entries : List (ConfigurationEntry κ)}

theorem find?_of_mem (hKinds : (entries.map (·.kind)).Nodup) {e : ConfigurationEntry κ}
    (he : e ∈ entries) : find? e.kind entries = some e.outcome := by
  induction entries with
  | nil => cases he
  | cons first rest ih =>
    obtain ⟨hNew, hRest⟩ := List.nodup_cons.mp hKinds
    rcases List.mem_cons.mp he with rfl | he
    · exact dif_pos rfl
    · have hKind : first.kind ≠ e.kind := fun hSame => hNew (List.mem_map.mpr ⟨e, he, hSame.symm⟩)
      rw [find?, dif_neg hKind]
      exact ih hRest he

theorem find?_eq_none {k : κ} (h : k ∉ entries.map (·.kind)) : find? k entries = none := by
  induction entries with
  | nil => rfl
  | cons first rest ih =>
    rw [List.map_cons, List.mem_cons, not_or] at h
    rw [find?, dif_neg (Ne.symm h.1)]
    exact ih h.2

theorem isSome_find?_iff (hKinds : (entries.map (·.kind)).Nodup) {k : κ} :
    (find? k entries).isSome = true ↔ k ∈ entries.map (·.kind) := by
  constructor
  · intro hSome
    by_contra hNew
    rw [find?_eq_none hNew] at hSome
    cases hSome
  · intro hMem
    obtain ⟨e, he, rfl⟩ := List.mem_map.mp hMem
    rw [find?_of_mem hKinds he, Option.isSome_some]

/-- What readers of a configuration learn when each of `registrations` has the outcome that
`outcome` gives. -/
structure Tells (c : Configuration κ) (registrations : List (Registration κ))
    (outcome : (r : Registration κ) → Except Failure (Fragment r.kind)) : Prop where
  kinds : c.kinds = registrations.map (·.kind)
  get : ∀ r ∈ registrations, c.get r.kind = outcome r
  get_of_unregistered : ∀ k, k ∉ registrations.map (·.kind) →
    c.get k = .error (.noSuchKind (kindName k))
  contains : ∀ k, c.contains k = true ↔ k ∈ registrations.map (·.kind)
  failures : c.failures = registrations.filterMap fun r => failure? ⟨r.kind, outcome r⟩
  isComplete : c.isComplete = true ↔ ∀ r ∈ registrations, ∃ f, outcome r = .ok f

theorem tells_outcomes {registrations : List (Registration κ)}
    (hKinds : (registrations.map (·.kind)).Nodup) (target : String)
    (outcome : (r : Registration κ) → Except Failure (Fragment r.kind)) :
    Tells ⟨target, registrations.map fun r => ⟨r.kind, outcome r⟩⟩ registrations outcome := by
  have hSame : (registrations.map fun r => ConfigurationEntry.mk r.kind (outcome r)).map (·.kind) =
      registrations.map (·.kind) := by
    rw [List.map_map]
    rfl
  have hNodup := hSame.symm ▸ hKinds
  have hFailures : failures ⟨target, registrations.map fun r => ⟨r.kind, outcome r⟩⟩ =
      registrations.filterMap fun r => failure? ⟨r.kind, outcome r⟩ := by
    rw [failures, List.filterMap_map]
    rfl
  refine ⟨hSame, fun r hr => ?_, fun k hk => ?_, fun k => ?_, hFailures, ?_⟩
  · have hFound := find?_of_mem hNodup
      (List.mem_map_of_mem (f := fun r => ConfigurationEntry.mk r.kind (outcome r)) hr)
    rw [get, hFound, Option.getD_some]
  · rw [get, find?_eq_none (hSame.symm ▸ hk), Option.getD_none]
  · rw [contains, isSome_find?_iff hNodup, hSame]
  · rw [isComplete, hFailures, List.isEmpty_iff, List.filterMap_eq_nil_iff]
    refine forall₂_congr fun r hr => ?_
    cases hOutcome : outcome r with
    | ok f => simp [failure?]
    | error failure => simp [failure?]

end Configuration

/-! ## Readers of a table -/

/-- A table gives its readers what a configuration gives to its own. -/
structure ConfigurationTable.Mirrors (t : ConfigurationTable κ) (c : Configuration κ) : Prop where
  kinds : t.kinds = c.kinds
  get : ∀ k, t.get k = c.get k
  getShared : ∀ k, t.getShared k = c.get k
  contains : ∀ k, t.contains k = c.contains k
  failures : t.failures = c.failures
  isComplete : t.isComplete = c.isComplete
  /-- No fragment is found that would have to be taken for one of another kind. -/
  fragment_kind : ∀ k f, t.outcomes.get? k = some (.ok f) → f.kind = k

namespace Configuration

variable {c : Configuration κ}

theorem find?_erased (k : κ) (entries : List (ConfigurationEntry κ)) :
    Table.find? k (entries.map (·.erased)) =
      (find? k entries).map fun outcome => outcome.map (AnyFragment.mk k) := by
  induction entries with
  | nil => rfl
  | cons e rest ih =>
    rw [List.map_cons, ConfigurationEntry.erased, Table.find?, find?, ih]
    by_cases hKind : e.kind = k
    · subst hKind
      simp
    · simp [hKind]

theorem table_get? (hKinds : c.kinds.Nodup) (k : κ) :
    c.table.outcomes.get? k =
      (find? k c.entries).map fun outcome => outcome.map (AnyFragment.mk k) := by
  have hKeys : ((c.entries.map (·.erased)).map Prod.fst).Nodup := by
    rw [List.map_map]
    exact hKinds
  have hEntries : c.table.outcomes.entries = c.entries.map (·.erased) := Table.entries_ofList hKeys
  rw [Table.get?, hEntries, find?_erased]

theorem table_failure? (hKinds : c.kinds.Nodup) {e : ConfigurationEntry κ} (he : e ∈ c.entries) :
    c.table.failure? e.kind = failure? e := by
  rw [ConfigurationTable.failure?, table_get? hKinds, find?_of_mem hKinds he, failure?]
  cases e.outcome <;> rfl

theorem table_mirrors (hKinds : c.kinds.Nodup) : c.table.Mirrors c := by
  have hTableKinds : c.table.kinds = c.kinds := by
    show (c.entries.map (·.erased)).map Prod.fst = c.entries.map (·.kind)
    rw [List.map_map]
    rfl
  have hFailures : c.table.failures = c.failures := by
    rw [ConfigurationTable.failures, hTableKinds, kinds, List.filterMap_map]
    exact List.filterMap_congr fun e he => table_failure? hKinds he
  have hGet : ∀ k, c.table.get k = c.get k := by
    intro k
    rw [ConfigurationTable.get, table_get? hKinds, get]
    cases find? k c.entries with
    | none => rfl
    | some outcome =>
      cases outcome with
      | error failure => rfl
      | ok f => simp [Except.map]
  refine ⟨hTableKinds, hGet, fun k => ?_, fun k => ?_, hFailures, ?_, fun k f hFound => ?_⟩
  · rw [ConfigurationTable.getShared_eq_get, hGet]
  · rw [ConfigurationTable.contains, table_get? hKinds, contains, Option.isSome_map]
  · rw [ConfigurationTable.isComplete, hFailures, isComplete]
  · rw [table_get? hKinds] at hFound
    obtain ⟨outcome, -, hErased⟩ := Option.map_eq_some_iff.mp hFound
    cases outcome with
    | error failure => cases hErased
    | ok fragment =>
      cases hErased
      rfl

end Configuration

/-! ## Registrations, resolutions and readers -/

/-- What readers of a configuration learn about the walks of a chain, where `before` is the cache
that the walks began with and `after` the one that they have led to. -/
structure Configuration.TellsWalks (configuration : Configuration κ) (b : ResolverBuilder κ)
    (answers : Answers κ) (c : Chain) (before after : Cache κ) : Prop where
  outcomes : configuration.Tells b.registrations fun r =>
    ((r.answering (answers r)).walk c before).outcome
  table : configuration.table.Mirrors configuration
  /-- A failure is the first one that the registered extractor meets. -/
  failure : ∀ r ∈ b.registrations, ∀ failure, configuration.get r.kind = .error failure ↔
    c.visits.findSome? ((r.answering (answers r)).stop? before) = some failure
  /-- A fragment is what the registered extractor makes of the member, on top of the entry that the
  registration has for the place before it. -/
  fragment : ∀ r ∈ b.registrations, ∀ f, configuration.get r.kind = .ok f → ∃ stage g,
    c.stages.getLast? = some stage ∧ after.stored? (r.key stage.1) = some ⟨r.kind, g⟩ ∧
      (answers r).step g (.member c.member) = .ok f

theorem World.tellsWalks_of_chain {events : List (Event κ)} {b : ResolverBuilder κ}
    (hb : b ∈ (empty.run events).builders) {target : Target} {c : Chain}
    (hc : Chain.ofTarget b.root target = .ok c) (answers : Answers κ) :
    let cache := (empty.run events).cache
    let resolution := (b.build.answering answers).resolve cache target
    ∃ configuration, resolution.outcome = .ok configuration ∧
      configuration.TellsWalks b answers c cache resolution.cache := by
  intro cache resolution
  have hCache : cache.WellKinded := cache_wellKinded events
  have hNodup : (b.registrations.map (·.kind)).Nodup := (numbered_run events).kinds b hb
  have hKinds := answering_kinds_nodup hb answers
  have hOutcome : resolution.outcome = .ok ⟨c.target, b.registrations.map fun r =>
      ⟨r.kind, ((r.answering (answers r)).walk c cache).outcome⟩⟩ := by
    refine (Resolver.outcome_of_chain hc hKinds hCache).trans ?_
    rw [Resolver.answering, List.map_map]
    rfl
  have hTells := Configuration.tells_outcomes hNodup c.target fun r =>
    ((r.answering (answers r)).walk c cache).outcome
  refine ⟨_, hOutcome, hTells, Configuration.table_mirrors (hTells.kinds ▸ hNodup),
    fun r hr failure => ?_, fun r hr f hOk => ?_⟩
  · rw [hTells.get r hr]
    exact (Registration.walk_trace c hCache).outcome_eq_error_iff c.stages_oneNodeEach
  · rw [hTells.get r hr] at hOk
    obtain ⟨stage, g, hLast, hStored, hStep⟩ :=
      Registration.walk_of_ok (r := r.answering (answers r)) hCache hOk
    obtain ⟨-, -, hWalk⟩ := Resolver.shows_walk (r := r.answering (answers r)) hc hKinds
      (Resolver.answering_mem b.build hr answers) hCache
    exact ⟨stage, g, hLast, (hWalk stage.1).trans hStored, hStep⟩

/-- Take a resolver that was added among any other events. Its kinds are those that have been asked
for since, each once and in the order in which they first were, and a kind can be registered exactly
if nobody has asked for it yet. Every entry of the cache has the kind that its key says.

A resolution, in the cache that the events have led to and with any answers of the extractors, fails
as a whole exactly if the target has no chain; then nothing is fetched, and the cache with its
counts stays as it is. Otherwise all readers say of a kind what the walk of its own registration
leads to. -/
theorem readers_follow_registrations (early later : List (Event κ)) :
    let i := (World.empty.run early).builders.length
    let world := World.empty.run (early ++ .start :: later)
    ∃ b, world.builders[i]? = some b ∧ b.build.kinds = (requestedKinds i later).eraseDups ∧
      b.build.kinds.Nodup ∧
      (∀ number kind extractor, { b with nextId := number }.register kind extractor =
        if kind ∈ requestedKinds i later then .error (.duplicateKind (kindName kind))
        else .ok ⟨b.root, b.registrations ++ [⟨number, kind, extractor⟩], number + 1⟩) ∧
      world.cache.WellKinded ∧
      ∀ (answers : Answers κ) (target : Target),
        let resolution := (b.build.answering answers).resolve world.cache target
        (∀ failure, resolution.outcome = .error failure ↔ ∃ fault,
          Chain.ofTarget b.root target = .error fault ∧
            failure = .ambiguous target.text fault.message) ∧
        (∀ failure, resolution.outcome = .error failure →
          resolution.fetched = [] ∧ resolution.cache = world.cache) ∧
        ∀ c, Chain.ofTarget b.root target = .ok c → ∃ configuration,
          resolution.outcome = .ok configuration ∧
            configuration.TellsWalks b answers c world.cache resolution.cache := by
  intro i world
  obtain ⟨b, hb, hAsked⟩ := World.builder_kinds early later
  have hMem : b ∈ world.builders := List.mem_of_getElem? hb
  have hNodup : b.build.kinds.Nodup := hAsked ▸ eraseDups_nodup _
  refine ⟨b, hb, hAsked, hNodup, fun number kind extractor => ?_, World.cache_wellKinded _,
    fun answers target => ?_⟩
  · have hTaken : kind ∈ b.registrations.map (·.kind) ↔ kind ∈ requestedKinds i later := by
      have hSame : b.registrations.map (·.kind) = (requestedKinds i later).eraseDups := hAsked
      rw [hSame, List.mem_eraseDups]
    simp only [ResolverBuilder.register, hTaken]
  · intro resolution
    cases hChain : Chain.ofTarget b.root target with
    | error fault =>
      have hFault : Chain.ofTarget (b.build.answering answers).root target = .error fault := hChain
      have hResolution : resolution = ⟨.error (.ambiguous target.text fault.message),
          world.cache, []⟩ := Resolver.resolve_of_fault hFault world.cache
      rw [hResolution]
      refine ⟨fun failure => ⟨fun h => ?_, ?_⟩, fun _ _ => ⟨rfl, rfl⟩, fun c hc => by cases hc⟩
      · exact ⟨fault, rfl, (Except.error.inj h).symm⟩
      · rintro ⟨fault', hSame, rfl⟩
        cases hSame
        rfl
    | ok c =>
      obtain ⟨configuration, hOutcome, hTells⟩ := World.tellsWalks_of_chain hMem hChain answers
      refine ⟨fun failure => ⟨fun h => ?_, ?_⟩, fun failure h => ?_, fun c' hc => ?_⟩
      · rw [hOutcome] at h
        cases h
      · rintro ⟨fault, hFault, -⟩
        cases hFault
      · rw [hOutcome] at h
        cases h
      · cases hc
        exact ⟨configuration, hOutcome, hTells⟩

end Heritage
