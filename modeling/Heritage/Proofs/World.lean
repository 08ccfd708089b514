import Heritage.Kind
import Heritage.Proofs.Resolution

/-!
# Resolvers that share a cache

A world holds resolvers that are being built and the cache that all of them use. Its events build
resolvers, register extractors and resolve targets, in any order; each resolution has answers of its
own. Numbers are given out once, also to registrations that have nothing to do with this cache.

* `World.numbered_run`: a number belongs to one registration, and a resolver has one registration
  for a kind;
* `World.cache_induct`, `World.entries_induct`: what all walks keep of a cache, or the walks of one
  registration of its entries, holds after any events.
-/

namespace Heritage

/-- Resolvers that are being built, their cache, and the number of the next registration. -/
structure World (κ : Type) [FragmentFamily κ] where
  builders : List (ResolverBuilder κ)
  cache : Cache κ
  nextId : Nat

/-- What may happen to resolvers that share a cache. Resolvers are known by their positions. -/
inductive Event (κ : Type) [FragmentFamily κ] where
  /-- A registration for another cache takes a number. -/
  | number
  /-- A resolver without registrations is added. -/
  | start
  /-- A resolver gets another way to build chains. -/
  | withRoot (i : Nat) (root : Option String)
  | register (i : Nat) (kind : κ) (extractor : Extractor (Fragment kind))
  | resolve (i : Nat) (target : Target) (answers : Answers κ)

namespace World

variable {κ : Type} [FragmentFamily κ]

/-- The world without resolvers, with an empty cache. -/
def empty : World κ := ⟨[], .empty, 0⟩

/-! ## Registrations -/

/-- Whether a resolver has a registration. -/
def Registers (w : World κ) (r : Registration κ) : Prop :=
  ∃ b ∈ w.builders, r ∈ b.registrations

/-- Resolvers with the registrations of the resolvers before them, but for new resolvers that have
none. -/
def KeepsRegistrations (old new : List (ResolverBuilder κ)) : Prop :=
  (∀ b ∈ old, ∃ next ∈ new, next.registrations = b.registrations) ∧
    ∀ next ∈ new, next.registrations = [] ∨ ∃ b ∈ old, b.registrations = next.registrations

theorem KeepsRegistrations.refl (builders : List (ResolverBuilder κ)) :
    KeepsRegistrations builders builders :=
  ⟨fun b hb => ⟨b, hb, rfl⟩, fun b hb => Or.inr ⟨b, hb, rfl⟩⟩

theorem mem_set_of_ne {builders : List (ResolverBuilder κ)} {i : Nat}
    {b next other : ResolverBuilder κ} (hb : builders[i]? = some b) (hOther : other ∈ builders) :
    other = b ∨ other ∈ builders.set i next := by
  obtain ⟨j, hj⟩ := List.mem_iff_getElem?.mp hOther
  by_cases hij : i = j
  · subst hij
    exact Or.inl (Option.some.inj (hj.symm.trans hb))
  · right
    refine List.mem_iff_getElem?.mpr ⟨j, ?_⟩
    rw [List.getElem?_set_ne hij, hj]

theorem mem_set_self {builders : List (ResolverBuilder κ)} {i : Nat} {b : ResolverBuilder κ}
    (hb : builders[i]? = some b) (next : ResolverBuilder κ) : next ∈ builders.set i next := by
  obtain ⟨hi, -⟩ := List.getElem?_eq_some_iff.mp hb
  exact List.mem_set hi next

/-- Numbers are given out once, and no resolver has two registrations for one kind. -/
structure Numbered (w : World κ) : Prop where
  below : ∀ r, w.Registers r → r.id < w.nextId
  unique : ∀ r s, w.Registers r → w.Registers s → r.id = s.id → r = s
  kinds : ∀ b ∈ w.builders, (b.registrations.map (·.kind)).Nodup

theorem numbered_empty : (empty : World κ).Numbered where
  below := by
    rintro r ⟨b, hb, -⟩
    cases hb
  unique := by
    rintro r s ⟨b, hb, -⟩
    cases hb
  kinds := by
    intro b hb
    cases hb

variable [DecidableEq κ]

/-! ## Steps and runs -/

/-- The world after an event. An event for a resolver that does not exist does nothing, nor does a
registration that is refused. -/
def step (w : World κ) : Event κ → World κ
  | .number => { w with nextId := w.nextId + 1 }
  | .start => { w with builders := w.builders ++ [.start w.nextId] }
  | .withRoot i root =>
    match w.builders[i]? with
    | none => w
    | some b => { w with builders := w.builders.set i (b.withRoot root) }
  | .register i kind extractor =>
    match w.builders[i]? with
    | none => w
    | some b =>
      match { b with nextId := w.nextId }.register kind extractor with
      | .error _ => w
      | .ok next => { w with builders := w.builders.set i next, nextId := next.nextId }
  | .resolve i target answers =>
    match w.builders[i]? with
    | none => w
    | some b => { w with cache := ((b.build.answering answers).resolve w.cache target).cache }

/-- The world after events. -/
def run (w : World κ) (events : List (Event κ)) : World κ :=
  events.foldl step w

theorem run_append (w : World κ) (front back : List (Event κ)) :
    w.run (front ++ back) = (w.run front).run back :=
  List.foldl_append

/-- An event keeps all registrations, or adds one to a resolver that has none for its kind. -/
theorem step_cases (w : World κ) (event : Event κ) :
    (w.nextId ≤ (w.step event).nextId ∧
      KeepsRegistrations w.builders (w.step event).builders) ∨
    ∃ i b kind extractor, w.builders[i]? = some b ∧ kind ∉ b.registrations.map (·.kind) ∧
      (w.step event).nextId = w.nextId + 1 ∧
      (w.step event).builders = w.builders.set i
        { b with
          registrations := b.registrations ++ [⟨w.nextId, kind, extractor⟩]
          nextId := w.nextId + 1 } := by
  cases event with
  | number => exact Or.inl ⟨Nat.le_succ _, .refl _⟩
  | start =>
    refine Or.inl ⟨le_rfl, fun b hb => ⟨b, List.mem_append_left _ hb, rfl⟩, fun next hNext => ?_⟩
    rcases List.mem_append.mp hNext with hOld | hNew
    · exact Or.inr ⟨next, hOld, rfl⟩
    · exact Or.inl (List.mem_singleton.mp hNew ▸ rfl)
  | withRoot i root =>
    left
    cases hb : w.builders[i]? with
    | none =>
      simp only [step, hb]
      exact ⟨le_rfl, .refl _⟩
    | some b =>
      simp only [step, hb]
      refine ⟨le_rfl, fun other hOther => ?_, fun next hNext => ?_⟩
      · rcases mem_set_of_ne hb hOther with rfl | hKept
        · exact ⟨_, mem_set_self hb _, rfl⟩
        · exact ⟨other, hKept, rfl⟩
      · rcases List.mem_or_eq_of_mem_set hNext with hOld | rfl
        · exact Or.inr ⟨next, hOld, rfl⟩
        · exact Or.inr ⟨b, List.mem_of_getElem? hb, rfl⟩
  | register i kind extractor =>
    cases hb : w.builders[i]? with
    | none =>
      simp only [step, hb]
      exact Or.inl ⟨le_rfl, .refl _⟩
    | some b =>
      by_cases hTaken : kind ∈ b.registrations.map (·.kind)
      · simp only [step, hb, ResolverBuilder.register, if_pos hTaken]
        exact Or.inl ⟨le_rfl, .refl _⟩
      · refine Or.inr ⟨i, b, kind, extractor, hb, hTaken, ?_⟩
        simp only [step, hb, ResolverBuilder.register, if_neg hTaken]
        exact ⟨trivial, trivial⟩
  | resolve i target answers =>
    left
    cases hb : w.builders[i]? <;> simp only [step, hb] <;> exact ⟨le_rfl, .refl _⟩

/-! ## Numbers -/

/-- An event adds at most one registration, which gets the next number. -/
theorem step_registers (w : World κ) (event : Event κ) :
    w.nextId ≤ (w.step event).nextId ∧ ∃ new : Option (Registration κ),
      (∀ r ∈ new, r.id = w.nextId ∧ (w.step event).nextId = w.nextId + 1) ∧
      ∀ r, (w.step event).Registers r ↔ w.Registers r ∨ r ∈ new := by
  obtain ⟨hNext, hKept, hBack⟩ | ⟨i, b, kind, extractor, hb, -, hNext, hBuilders⟩ :=
    step_cases w event
  · refine ⟨hNext, none, by simp, fun r => ⟨?_, ?_⟩⟩
    · rintro ⟨next, hMem, hr⟩
      rcases hBack next hMem with hNone | ⟨b, hb, hSame⟩
      · rw [hNone] at hr
        cases hr
      · exact Or.inl ⟨b, hb, hSame ▸ hr⟩
    · intro hOr
      obtain ⟨b, hb, hr⟩ := hOr.resolve_right (by simp)
      obtain ⟨next, hMem, hSame⟩ := hKept b hb
      exact ⟨next, hMem, hSame ▸ hr⟩
  · refine ⟨by omega, some ⟨w.nextId, kind, extractor⟩, ?_, fun r => ?_⟩
    · intro r hr
      obtain rfl := Option.some.inj hr
      exact ⟨rfl, hNext⟩
    · rw [Registers, hBuilders]
      constructor
      · rintro ⟨next, hMem, hr⟩
        rcases List.mem_or_eq_of_mem_set hMem with hOld | rfl
        · exact Or.inl ⟨next, hOld, hr⟩
        · rcases List.mem_append.mp hr with hr | hr
          · exact Or.inl ⟨b, List.mem_of_getElem? hb, hr⟩
          · exact Or.inr (List.mem_singleton.mp hr ▸ rfl)
      · rintro (⟨other, hOther, hr⟩ | hr)
        · rcases mem_set_of_ne hb hOther with rfl | hKept
          · exact ⟨_, mem_set_self hb _, List.mem_append_left _ hr⟩
          · exact ⟨other, hKept, hr⟩
        · obtain rfl := Option.some.inj hr
          exact ⟨_, mem_set_self hb _, List.mem_append_right _ List.mem_cons_self⟩

theorem step_registers_mono {w : World κ} {r : Registration κ} (h : w.Registers r)
    (event : Event κ) : (w.step event).Registers r := by
  obtain ⟨-, new, -, hRegisters⟩ := step_registers w event
  exact (hRegisters r).mpr (Or.inl h)

theorem step_kinds {w : World κ} (h : ∀ b ∈ w.builders, (b.registrations.map (·.kind)).Nodup)
    (event : Event κ) :
    ∀ next ∈ (w.step event).builders, (next.registrations.map (·.kind)).Nodup := by
  intro next hMem
  obtain ⟨-, -, hBack⟩ | ⟨i, b, kind, extractor, hb, hNew, -, hBuilders⟩ := step_cases w event
  · rcases hBack next hMem with hNone | ⟨b, hb, hSame⟩
    · rw [hNone]
      exact List.nodup_nil
    · rw [← hSame]
      exact h b hb
  · rw [hBuilders] at hMem
    rcases List.mem_or_eq_of_mem_set hMem with hOld | rfl
    · exact h next hOld
    · rw [List.map_append, List.map_singleton]
      refine List.nodup_append.mpr
        ⟨h b (List.mem_of_getElem? hb), List.nodup_singleton kind, ?_⟩
      intro k hk other hOther hEq
      obtain rfl : k = kind := hEq.trans (List.mem_singleton.mp hOther)
      exact hNew hk

theorem Numbered.step {w : World κ} (h : w.Numbered) (event : Event κ) :
    (w.step event).Numbered := by
  obtain ⟨hNext, new, hNew, hRegisters⟩ := step_registers w event
  refine ⟨?_, ?_, step_kinds h.kinds event⟩
  · intro r hr
    rcases (hRegisters r).mp hr with hOld | hr
    · exact (h.below r hOld).trans_le hNext
    · obtain ⟨hId, hNumber⟩ := hNew r hr
      omega
  · intro r s hr hs hId
    rcases (hRegisters r).mp hr with hOldR | hNewR <;>
      rcases (hRegisters s).mp hs with hOldS | hNewS
    · exact h.unique r s hOldR hOldS hId
    · have hBelow := h.below r hOldR
      have hNumber := (hNew s hNewS).1
      omega
    · have hBelow := h.below s hOldS
      have hNumber := (hNew r hNewR).1
      omega
    · exact Option.some.inj ((Option.mem_def.mp hNewR).symm.trans hNewS)

theorem numbered_run (events : List (Event κ)) : (empty.run events).Numbered := by
  induction events using List.reverseRecOn with
  | nil => exact numbered_empty
  | append_singleton events event ih =>
    rw [run_append]
    exact ih.step event

/-! ## The cache -/

/-- Only resolutions touch the cache. -/
theorem step_cache (w : World κ) (event : Event κ) :
    (w.step event).cache = w.cache ∨ ∃ i target answers b, event = .resolve i target answers ∧
      b ∈ w.builders ∧
      (w.step event).cache = ((b.build.answering answers).resolve w.cache target).cache := by
  cases event with
  | number => exact Or.inl rfl
  | start => exact Or.inl rfl
  | withRoot i root => left; cases hb : w.builders[i]? <;> simp only [step, hb]
  | register i kind extractor =>
    left
    cases hb : w.builders[i]? with
    | none => simp only [step, hb]
    | some b =>
      simp only [step, hb]
      split <;> rfl
  | resolve i target answers =>
    cases hb : w.builders[i]? with
    | none => left; simp only [step, hb]
    | some b =>
      refine Or.inr ⟨i, target, answers, b, rfl, List.mem_of_getElem? hb, ?_⟩
      simp only [step, hb]

/-- What every walk of a registered extractor keeps holds of the cache after any events. -/
theorem cache_induct {events : List (Event κ)} {I : Cache κ → Prop} (hEmpty : I .empty)
    (hWalk : ∀ i target answers, .resolve i target answers ∈ events →
      ∀ r, (empty.run events).Registers r →
      ∀ c cache, I cache → I ((r.answering (answers r)).walk c cache).cache) :
    I (empty.run events).cache := by
  induction events using List.reverseRecOn with
  | nil => exact hEmpty
  | append_singleton events event ih =>
    have hRun : empty.run (events ++ [event]) = (empty.run events).step event := run_append _ _ _
    rw [hRun] at hWalk ⊢
    have hOld : I (empty.run events).cache := by
      refine ih fun i target answers hMem r hr => ?_
      exact hWalk i target answers (List.mem_append_left _ hMem) r (step_registers_mono hr event)
    rcases step_cache (empty.run events) event with hSame | ⟨i, target, answers, b, rfl, hb, hNew⟩
    · rw [hSame]
      exact hOld
    · rw [hNew]
      refine Resolver.resolve_keeps (fun s hs c cache hCache => ?_) hOld
      obtain ⟨r, hr, rfl⟩ := List.mem_map.mp hs
      exact hWalk i target answers (List.mem_append_right _ List.mem_cons_self) r
        (step_registers_mono ⟨b, hb, hr⟩ _) c cache hCache

theorem cache_wellKinded (events : List (Event κ)) :
    (empty.run events).cache.WellKinded :=
  cache_induct Cache.wellKinded_empty fun _ _ _ _ _ _ c _ hKinds =>
    (Registration.walk_trace c hKinds).wellKinded hKinds

/-- What every walk of one registration keeps of its entries holds of the cache after any events:
the walks of others do not touch them. -/
theorem entries_induct {events : List (Event κ)} {r : Registration κ}
    (hr : (empty.run events).Registers r) {I : (Place → Option (AnyFragment κ)) → Prop}
    (hEmpty : I fun _ => none)
    (hWalk : ∀ i target answers, .resolve i target answers ∈ events →
      ∀ c cache, cache.WellKinded → (I fun place => cache.stored? (r.key place)) →
        I fun place => ((r.answering (answers r)).walk c cache).cache.stored? (r.key place)) :
    I fun place => (empty.run events).cache.stored? (r.key place) := by
  suffices hAll : (empty.run events).cache.WellKinded ∧
      I fun place => (empty.run events).cache.stored? (r.key place) from hAll.2
  refine cache_induct
    (I := fun cache => cache.WellKinded ∧ I fun place => cache.stored? (r.key place))
    ⟨Cache.wellKinded_empty, hEmpty⟩ ?_
  rintro i target answers hMem s hs c cache ⟨hKinds, hCache⟩
  have hTrace := Registration.walk_trace (r := s.answering (answers s)) c hKinds
  refine ⟨hTrace.wellKinded hKinds, ?_⟩
  by_cases hSame : s.id = r.id
  · obtain rfl := (numbered_run events).unique s r hs hr hSame
    exact hWalk i target answers hMem c cache hKinds hCache
  · -- a registration with another number has other keys
    have hUntouched : ∀ place,
        ((s.answering (answers s)).walk c cache).cache.stored? (r.key place) =
          cache.stored? (r.key place) := fun place =>
      hTrace.stored?_of_ne fun other hKey => hSame (congrArg CacheKey.registration hKey)
    simpa only [hUntouched] using hCache

/-! ## Resolutions of a world -/

theorem answering_kinds_nodup {events : List (Event κ)} {b : ResolverBuilder κ}
    (hb : b ∈ (empty.run events).builders) (answers : Answers κ) :
    (b.build.answering answers).kinds.Nodup := by
  rw [Resolver.answering_kinds]
  exact (numbered_run events).kinds b hb

section

variable {events : List (Event κ)} {b : ResolverBuilder κ} {r : Registration κ} {target : Target}
  {c : Chain} (hb : b ∈ (empty.run events).builders) (hr : r ∈ b.registrations)
  (hc : Chain.ofTarget b.root target = .ok c) (answers : Answers κ)

include hb hr hc

theorem outcomeOf_eq_error_iff {failure : Failure} :
    ((b.build.answering answers).resolve (empty.run events).cache target).outcomeOf r.kind =
        some (.error failure) ↔
      c.visits.findSome? ((r.answering (answers r)).stop? (empty.run events).cache) =
        some failure :=
  Resolver.outcomeOf_eq_error_iff (r := r.answering (answers r)) hc
    (answering_kinds_nodup hb answers) (Resolver.answering_mem b.build hr answers)
    (cache_wellKinded events)

theorem fetchedFor_eq :
    ((b.build.answering answers).resolve (empty.run events).cache target).fetchedFor r.kind =
      through (answers r).fails (((c.stages.filter fun stage =>
        !(empty.run events).cache.contains (r.key stage.1)).eraseDups).map Prod.snd ++
          [.member c.member]) :=
  Resolver.fetchedFor_eq (r := r.answering (answers r)) hc (answering_kinds_nodup hb answers)
    (Resolver.answering_mem b.build hr answers) (cache_wellKinded events)

theorem contains_iff {place : Place} :
    ((b.build.answering answers).resolve (empty.run events).cache target).cache.contains
        (r.key place) = true ↔
      (empty.run events).cache.contains (r.key place) = true ∨
        some place ∈ (c.visits.takeWhile fun visit =>
          ((r.answering (answers r)).stop? (empty.run events).cache visit).isNone).map Prod.fst :=
  Resolver.contains_iff (r := r.answering (answers r)) hc (answering_kinds_nodup hb answers)
    (Resolver.answering_mem b.build hr answers) (cache_wellKinded events)

theorem contains_of_ok {fragment : Fragment r.kind}
    (hOk : ((b.build.answering answers).resolve (empty.run events).cache target).outcomeOf r.kind =
      some (.ok fragment)) :
    ∀ stage ∈ c.stages, ((b.build.answering answers).resolve
      (empty.run events).cache target).cache.contains (r.key stage.1) :=
  Resolver.contains_of_ok (r := r.answering (answers r)) hc (answering_kinds_nodup hb answers)
    (Resolver.answering_mem b.build hr answers) (cache_wellKinded events) hOk

end

theorem run_stored?_mono {w : World κ} (hKinds : w.cache.WellKinded) (events : List (Event κ))
    {key : CacheKey κ} {entry : AnyFragment κ} (hEntry : w.cache.stored? key = some entry) :
    (w.run events).cache.stored? key = some entry := by
  induction events generalizing w with
  | nil => exact hEntry
  | cons event events ih =>
    have hRun : w.run (event :: events) = (w.step event).run events := rfl
    rw [hRun]
    rcases step_cache w event with hSame | ⟨i, target, answers, b, rfl, -, hNew⟩
    · exact ih (hSame ▸ hKinds) (hSame ▸ hEntry)
    · refine ih ?_ ?_
      · rw [hNew]
        exact Resolver.resolve_wellKinded hKinds
      · rw [hNew]
        exact Resolver.resolve_stored?_mono hKinds hEntry

/-- What a resolution has stored stays in the cache. -/
theorem contains_after_resolve {events : List (Event κ)} {i : Nat} {b : ResolverBuilder κ}
    (hb : (empty.run events).builders[i]? = some b) {target : Target} {answers : Answers κ}
    {key : CacheKey κ} (later : List (Event κ))
    (hKey : ((b.build.answering answers).resolve (empty.run events).cache target).cache.contains
      key) :
    (empty.run (events ++ .resolve i target answers :: later)).cache.contains key := by
  obtain ⟨entry, hEntry⟩ := Cache.contains_eq_true_iff.mp hKey
  have hStep : ((empty.run events).step (.resolve i target answers)).cache =
      ((b.build.answering answers).resolve (empty.run events).cache target).cache := by
    simp only [step, hb]
  have hRun : empty.run (events ++ .resolve i target answers :: later) =
      ((empty.run events).step (.resolve i target answers)).run later := run_append _ _ _
  rw [hRun]
  refine Cache.contains_eq_true_iff.mpr ⟨entry, run_stored?_mono ?_ later ?_⟩
  · rw [hStep]
    exact Resolver.resolve_wellKinded (cache_wellKinded events)
  · rw [hStep]
    exact hEntry

end World

/-! ## A small world -/

namespace Fixture

/-- A target with two types, the first of which declares the member. -/
def smallTarget : Target :=
  ⟨[⟨"org.Base", "org"⟩, ⟨"org.Leaf", "org"⟩], ⟨"org.Base", "runs"⟩⟩

/-- The chain of the small target. -/
def smallChain : Chain :=
  ⟨"org.Leaf#runs", "org", [⟨"org.Base", "org"⟩, ⟨"org.Leaf", "org"⟩], ⟨"org.Base", "runs"⟩⟩

/-- The extractor of trails, registered first. -/
def trailRegistration : Registration Kind := ⟨0, .trail, trailExtractor⟩

/-- A resolver with nothing but an extractor of trails. -/
def trailBuilder : ResolverBuilder Kind := ⟨none, [trailRegistration], 1⟩

/-- A resolver for trails is made and resolves a target. -/
def trailEvents (target : Target) (answers : Answers Kind) : List (Event Kind) :=
  [.start, .register 0 .trail trailExtractor, .resolve 0 target answers]

theorem trailEvents_builders (target : Target) (answers : Answers Kind) :
    (World.empty.run (trailEvents target answers)).builders = [trailBuilder] := rfl

theorem answers_of_resolve_mem_trailEvents {answers answers' : Answers Kind} {i : Nat}
    {target target' : Target} (h : .resolve i target' answers' ∈ trailEvents target answers) :
    answers' = answers := by
  simp only [trailEvents, List.mem_cons, List.not_mem_nil, or_false, reduceCtorEq, false_or] at h
  exact (Event.resolve.inj h).2.2

theorem smallChain_ofTarget : Chain.ofTarget none smallTarget = .ok smallChain := by decide

theorem trailExtractor_byName : trailExtractor.ByName := by
  intro a b hName
  simp [trailExtractor, label, Node.text, hName]

end Fixture

end Heritage
