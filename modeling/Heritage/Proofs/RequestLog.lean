import Heritage.Computation
import Heritage.Kind
import Heritage.Proofs.Counts

/-!
# The log of a use of the cache

Requests may be made while the fragment of another request is being computed, also under the same
key. A log has what happens on the way one after another, with the cache at each moment: a request
is answered by an entry, or its computation begins, and later comes to its outcome. All other uses
of a cache only look at it, and so whatever holds at one moment and is kept by what happens next
holds all the time.

* `Computation.moments`: the log of a computation, with the caches of its run;
* `Follows`: what can happen next, one rule for each case, and what it does to the cache;
* `course_moments`: the log of every computation is made by these rules;
* `Course.stored?_eq`: what a cache holds, read off the log alone;
* `cache_only_grows`: what that means for entries, answers and counts at every moment.
-/

namespace Heritage

variable {κ : Type} [FragmentFamily κ]

namespace Computation

/-! ## Logs -/

/-- What happens at a moment of the use of a cache. -/
inductive Step (κ : Type) [FragmentFamily κ] where
  /-- A request is answered by an entry. -/
  | answered (key : CacheKey κ) (asked : κ) (outcome : Except Failure (Fragment asked))
  /-- A request is not answered by an entry, and its computation begins. -/
  | began (key : CacheKey κ) (asked : κ)
  /-- A computation comes to `computed`, and its request is answered with `outcome`. -/
  | ended (key : CacheKey κ) (asked : κ) (computed outcome : Except Failure (Fragment asked))

/-- What happens, and the cache right behind it. -/
structure Moment (κ : Type) [FragmentFamily κ] where
  step : Step κ
  cache : Cache κ

/-- An answer to a request. -/
abbrev Outcome (κ : Type) [FragmentFamily κ] : Type :=
  (kind : κ) × Except Failure (Fragment kind)

/-- The answer that is given at a moment, if one is. -/
def Moment.answer? (m : Moment κ) : Option (Outcome κ) :=
  match m.step with
  | .answered _ asked outcome => some ⟨asked, outcome⟩
  | .began _ _ => none
  | .ended _ asked _ outcome => some ⟨asked, outcome⟩

/-- Whether a request is made at a moment. -/
def Moment.isRequest (m : Moment κ) : Bool :=
  match m.step with
  | .answered _ _ _ => true
  | .began _ _ => true
  | .ended _ _ _ _ => false

/-- The fragment that a computation yields at a moment, with the key that it has been computed for.
-/
def Moment.computed? (m : Moment κ) : Option (CacheKey κ × AnyFragment κ) :=
  match m.step with
  | .ended key asked (.ok fresh) _ => some (key, ⟨asked, fresh⟩)
  | _ => none

variable [DecidableEq κ]

/-- The moments of the run of a computation on a cache. -/
def moments {k : κ} : Computation κ k → Cache κ → List (Moment κ)
  | .done _, _ => []
  | .request key asked inner next, c =>
    let answer := c.getOrCompute key asked inner.run
    let behind := (next answer.outcome).moments answer.cache
    match c.lookup key asked with
    | some _ => ⟨.answered key asked answer.outcome, answer.cache⟩ :: behind
    | none =>
      ⟨.began key asked, c.countMiss⟩ :: inner.moments c.countMiss ++
        ⟨.ended key asked (inner.run c.countMiss).outcome answer.outcome, answer.cache⟩ :: behind

/-- The cache behind some moments. -/
def cacheBehind (c : Cache κ) (past : List (Moment κ)) : Cache κ :=
  (past.getLast?.map Moment.cache).getD c

/-- The first fragment that has been computed for a key. -/
def firstComputed? (key : CacheKey κ) (past : List (Moment κ)) : Option (AnyFragment κ) :=
  ((past.filterMap Moment.computed?).find? (·.1 = key)).map Prod.snd

end Computation

namespace AnswerRecord

mutual

/-- The answers that a record tells of, in the order in which they were given: those within the
computation of a request come before its own. -/
def answers : AnswerRecord κ → List (Computation.Outcome κ)
  | .mk kind outcome none => [⟨kind, outcome⟩]
  | .mk kind outcome (some inner) => answersOfAll inner ++ [⟨kind, outcome⟩]

/-- The answers that records tell of. -/
def answersOfAll : List (AnswerRecord κ) → List (Computation.Outcome κ)
  | [] => []
  | first :: rest => answers first ++ answersOfAll rest

end

end AnswerRecord

namespace Computation

variable [DecidableEq κ]

/-! ## What can happen next -/

/-- `Follows c m`: the moment `m` can come next where the cache is `c`. -/
inductive Follows : Cache κ → Moment κ → Prop
  | answered {c : Cache κ} {key : CacheKey κ} {asked : κ} {fragment : Fragment asked}
      (hEntry : c.lookup key asked = some fragment) :
      Follows c ⟨.answered key asked (.ok fragment), c.countHit⟩
  | began {c : Cache κ} {key : CacheKey κ} {asked : κ} (hMissing : c.lookup key asked = none) :
      Follows c ⟨.began key asked, c.countMiss⟩
  | failed (c : Cache κ) (key : CacheKey κ) (asked : κ) (failure : Failure) :
      Follows c ⟨.ended key asked (.error failure) (.error failure), c⟩
  | computed (c : Cache κ) (key : CacheKey κ) (asked : κ) (fresh : Fragment asked) :
      Follows c ⟨.ended key asked (.ok fresh)
        (.ok ((((c.stored? key).getD ⟨asked, fresh⟩).as? asked).getD fresh)),
        c.store key ⟨asked, fresh⟩⟩

/-- `Course c past c'`: the moments `past` lead from the cache `c` to the cache `c'`. -/
inductive Course : Cache κ → List (Moment κ) → Cache κ → Prop
  | nil (c : Cache κ) : Course c [] c
  | cons {c c' : Cache κ} {m : Moment κ} {later : List (Moment κ)} (hNext : Follows c m)
      (hLater : Course m.cache later c') : Course c (m :: later) c'

theorem Course.append {c middle c' : Cache κ} {past later : List (Moment κ)}
    (hPast : Course c past middle) (hLater : Course middle later c') :
    Course c (past ++ later) c' := by
  induction hPast with
  | nil => exact hLater
  | cons hNext _ ih => exact .cons hNext (ih hLater)

theorem Course.split {c c' : Cache κ} {past later : List (Moment κ)}
    (h : Course c (past ++ later) c') :
    Course c past (cacheBehind c past) ∧ Course (cacheBehind c past) later c' := by
  induction past generalizing c with
  | nil => exact ⟨.nil c, h⟩
  | cons m past ih =>
    cases h with
    | cons hNext hLater =>
      have hBehind : cacheBehind c (m :: past) = cacheBehind m.cache past := by
        cases past <;> rfl
      rw [hBehind]
      exact ⟨.cons hNext (ih hLater).1, (ih hLater).2⟩

theorem Course.upTo {c c' : Cache κ} {past later : List (Moment κ)} {now : Moment κ}
    (h : Course c (past ++ now :: later) c') : Course c (past ++ [now]) now.cache := by
  rw [List.append_cons] at h
  have hPast := h.split.1
  rwa [cacheBehind, List.getLast?_concat] at hPast

theorem Course.eq_of_nil {c c' : Cache κ} (h : Course c [] c') : c = c' := by
  cases h
  rfl

theorem Course.eq_of_cons {c c' : Cache κ} {m : Moment κ} {later : List (Moment κ)}
    (h : Course c (m :: later) c') : Follows c m ∧ Course m.cache later c' := by
  cases h with
  | cons hNext hLater => exact ⟨hNext, hLater⟩

/-- A log is made by the rules, and it ends with the cache that the run leaves. -/
theorem course_moments {k : κ} (use : Computation κ k) (c : Cache κ) :
    Course c (use.moments c) (use.run c).cache := by
  induction use generalizing c with
  | done outcome => exact .nil c
  | request key asked inner next ihInner ihNext =>
    rw [moments, run]
    cases hLookup : c.lookup key asked with
    | some fragment =>
      dsimp only
      rw [Cache.getOrCompute_of_lookup hLookup]
      exact .cons (.answered hLookup) (ihNext _ _)
    | none =>
      dsimp only
      refine .cons (.began hLookup) ((ihInner c.countMiss).append ?_)
      cases hOutcome : (inner.run c.countMiss).outcome with
      | error failure =>
        rw [Cache.getOrCompute_of_error hLookup hOutcome]
        exact .cons (.failed _ key asked failure) (ihNext _ _)
      | ok fresh =>
        rw [Cache.getOrCompute_of_ok hLookup hOutcome]
        exact .cons (.computed _ key asked fresh) (ihNext _ _)

/-- A log has the answers that the run reports. -/
theorem answers_moments {k : κ} (use : Computation κ k) (c : Cache κ) :
    (use.moments c).filterMap Moment.answer? = AnswerRecord.answersOfAll (use.run c).report := by
  induction use generalizing c with
  | done outcome => rfl
  | request key asked inner next ihInner ihNext =>
    rw [moments, run, AnswerRecord.answersOfAll]
    cases hLookup : c.lookup key asked with
    | some fragment =>
      dsimp only
      rw [Cache.getOrCompute_of_lookup hLookup, AnswerRecord.answers, ← ihNext]
      rfl
    | none =>
      have hReport : (c.getOrCompute key asked inner.run).report =
          some (inner.run c.countMiss).report := by
        cases hOutcome : (inner.run c.countMiss).outcome with
        | error failure => rw [Cache.getOrCompute_of_error hLookup hOutcome]
        | ok fresh => rw [Cache.getOrCompute_of_ok hLookup hOutcome]
      dsimp only
      rw [hReport, AnswerRecord.answers, ← ihInner, ← ihNext, List.filterMap_append,
        List.append_assoc]
      rfl

/-- In the end, every request has been answered. -/
theorem countP_isRequest_moments {k : κ} (use : Computation κ k) (c : Cache κ) :
    (use.moments c).countP Moment.isRequest =
      ((use.moments c).filterMap Moment.answer?).length := by
  induction use generalizing c with
  | done outcome => rfl
  | request key asked inner next ihInner ihNext =>
    rw [moments]
    cases hLookup : c.lookup key asked with
    | some fragment =>
      dsimp only
      rw [List.countP_cons, ihNext]
      rfl
    | none =>
      dsimp only
      simp only [List.cons_append, List.countP_cons, List.countP_append, List.filterMap_cons,
        List.filterMap_append, List.length_append, List.length_cons, Moment.isRequest,
        Moment.answer?, ihInner, ihNext, if_true, Bool.false_eq_true, if_false]
      omega

/-! ## What a course does to the cache -/

theorem firstComputed?_append (key : CacheKey κ) (front back : List (Moment κ)) :
    firstComputed? key (front ++ back) =
      (firstComputed? key front).or (firstComputed? key back) := by
  rw [firstComputed?, firstComputed?, firstComputed?, List.filterMap_append, List.find?_append,
    Option.map_or]

theorem Follows.stored?_eq {c : Cache κ} {m : Moment κ} (h : Follows c m) (key : CacheKey κ) :
    m.cache.stored? key = (c.stored? key).or (firstComputed? key [m]) := by
  cases h with
  | answered hEntry => simp [firstComputed?, Moment.computed?]
  | began hMissing => simp [firstComputed?, Moment.computed?]
  | failed => simp [firstComputed?, Moment.computed?]
  | computed own asked fresh =>
    rw [Cache.stored?_store]
    by_cases hKey : own = key
    · subst hKey
      cases hOld : c.stored? own <;> simp [firstComputed?, Moment.computed?]
    · simp [firstComputed?, Moment.computed?, hKey]

/-- Under a key there is what was there before the moments, or else what has first been computed for
it. -/
theorem Course.stored?_eq {c c' : Cache κ} {past : List (Moment κ)} (h : Course c past c')
    (key : CacheKey κ) : c'.stored? key = (c.stored? key).or (firstComputed? key past) := by
  induction h with
  | nil c => simp [firstComputed?]
  | @cons c c' m later hNext _ ih =>
    rw [ih, hNext.stored?_eq, Option.or_assoc, ← firstComputed?_append, List.singleton_append]

theorem hits_store (c : Cache κ) (key : CacheKey κ) (f : AnyFragment κ) :
    (c.store key f).hits = c.hits ∧ (c.store key f).misses = c.misses := by
  unfold Cache.store
  split <;> exact ⟨rfl, rfl⟩

theorem Follows.requests_eq {c : Cache κ} {m : Moment κ} (h : Follows c m) :
    m.cache.hits + m.cache.misses = c.hits + c.misses + if m.isRequest then 1 else 0 := by
  cases h with
  | answered hEntry =>
    show c.hits + 1 + c.misses = c.hits + c.misses + 1
    omega
  | began hMissing => rfl
  | failed => rfl
  | computed key asked fresh =>
    rw [(hits_store c key _).1, (hits_store c key _).2]
    rfl

/-- Hits and misses together count the requests. -/
theorem Course.requests_eq {c c' : Cache κ} {past : List (Moment κ)} (h : Course c past c') :
    c'.hits + c'.misses = c.hits + c.misses + past.countP Moment.isRequest := by
  induction h with
  | nil c => rfl
  | @cons c c' m later hNext _ ih =>
    rw [ih, hNext.requests_eq, List.countP_cons]
    omega

theorem entries_store_le (c : Cache κ) (key : CacheKey κ) (f : AnyFragment κ) :
    (c.store key f).stats.entries ≤ c.stats.entries + 1 := by
  cases hOld : c.stored? key with
  | none => rw [Cache.stats, Cache.entries_store hOld, List.length_append]; exact Nat.le_refl _
  | some old =>
    have hSame : c.store key f = c := by rw [Cache.store, hOld]
    rw [hSame]
    exact Nat.le_succ _

theorem Follows.entries_le {c : Cache κ} {m : Moment κ} (h : Follows c m) :
    m.cache.stats.entries ≤ c.stats.entries + if m.computed?.isSome then 1 else 0 := by
  cases h with
  | answered hEntry => exact Nat.le_refl _
  | began hMissing => exact Nat.le_refl _
  | failed => exact Nat.le_refl _
  | computed key asked fresh => exact entries_store_le c key _

/-- There are no more entries than computations that have yielded a fragment. -/
theorem Course.entries_le {c c' : Cache κ} {past : List (Moment κ)} (h : Course c past c') :
    c'.stats.entries ≤ c.stats.entries + past.countP fun m => m.computed?.isSome := by
  induction h with
  | nil c => exact Nat.le_refl _
  | @cons c c' m later hNext _ ih =>
    have hStep := hNext.entries_le
    rw [List.countP_cons]
    omega

/-! ## Every moment of a use -/

/-- Every entry of a cache is in a later one as well, unchanged. -/
def Within (c c' : Cache κ) : Prop :=
  ∀ key entry, c.stored? key = some entry → c'.stored? key = some entry

theorem Course.within {c c' : Cache κ} {past : List (Moment κ)} (h : Course c past c') :
    Within c c' := by
  intro key entry hEntry
  rw [h.stored?_eq, hEntry, Option.some_or]

/-- What is given as an answer at a moment, where `before` is the cache that the moment finds: an
entry of the kind that was asked for; or the failure of a computation, which leaves the cache as it
is; or the entry that there is now, if it has that kind, and what has been computed otherwise. -/
def Answers (before : Cache κ) (m : Moment κ) : Prop :=
  match m.step with
  | .answered key asked outcome =>
    ∃ entry fragment, m.cache.stored? key = some entry ∧ entry.as? asked = some fragment ∧
      outcome = .ok fragment
  | .began _ _ => True
  | .ended _ _ (.error failure) outcome => outcome = .error failure ∧ m.cache = before
  | .ended key asked (.ok fresh) outcome =>
    ∃ entry, m.cache.stored? key = some entry ∧ outcome = .ok ((entry.as? asked).getD fresh)

theorem Follows.answers {c : Cache κ} {m : Moment κ} (h : Follows c m) : Answers c m := by
  cases h with
  | answered hEntry =>
    obtain ⟨entry, hStored, hKind⟩ := Option.bind_eq_some_iff.mp hEntry
    exact ⟨entry, _, hStored, hKind, rfl⟩
  | began hMissing => trivial
  | failed => exact ⟨rfl, rfl⟩
  | computed key asked fresh =>
    refine ⟨(c.stored? key).getD ⟨asked, fresh⟩, ?_, rfl⟩
    rw [Cache.stored?_store, if_pos rfl]

/-- Whatever is requested from a cache, with requests within the computations of others, the log of
this tells all answers that are given, and it ends with the cache that is left. At every moment of
it, what is stored stays as it is at all later moments, and it is what the first computation for its
key has yielded; an answer is what is stored if that has the right kind, and else what has just been
computed, and a failed computation adds nothing of its own; hits and misses together are the
requests made so far; and there are no more entries than computations that have yielded a fragment.
-/
theorem cache_only_grows {k : κ} (use : Computation κ k) :
    (use.moments .empty).filterMap Moment.answer? =
      AnswerRecord.answersOfAll (use.run .empty).report ∧
    cacheBehind .empty (use.moments .empty) = (use.run .empty).cache ∧
    (use.run .empty).cache.hits + (use.run .empty).cache.misses =
      (AnswerRecord.answersOfAll (use.run .empty).report).length ∧
    ∀ past now later, use.moments .empty = past ++ now :: later →
      (∀ moment ∈ later, Within now.cache moment.cache) ∧
      (∀ key, now.cache.stored? key = firstComputed? key (past ++ [now])) ∧
      Answers (cacheBehind .empty past) now ∧
      now.cache.hits + now.cache.misses = (past ++ [now]).countP Moment.isRequest ∧
      now.cache.stats.entries ≤ (past ++ [now]).countP fun m => m.computed?.isSome := by
  have hCourse := course_moments use .empty
  have hEnd : cacheBehind .empty (use.moments .empty) = (use.run .empty).cache := by
    have hAll := hCourse
    rw [← List.append_nil (use.moments .empty)] at hAll
    exact hAll.split.2.eq_of_nil
  refine ⟨answers_moments use .empty, hEnd, ?_, fun past now later hMoments => ?_⟩
  · rw [hCourse.requests_eq, countP_isRequest_moments, answers_moments]
    exact Nat.zero_add _
  · rw [hMoments] at hCourse
    obtain ⟨hNext, hLater⟩ := hCourse.split.2.eq_of_cons
    have hNow := hCourse.upTo
    refine ⟨fun moment hMoment => ?_, fun key => ?_, hNext.answers, ?_, ?_⟩
    · obtain ⟨between, after, rfl⟩ := List.append_of_mem hMoment
      exact hLater.upTo.within
    · rw [hNow.stored?_eq]
      exact Option.none_or
    · rw [hNow.requests_eq]
      exact Nat.zero_add _
    · refine hNow.entries_le.trans (Nat.le_of_eq ?_)
      exact Nat.zero_add _

/-- While the text under a key is computed, a number is stored under that key. -/
def reentrantUse : Computation Kind .text :=
  let key : CacheKey Kind := ⟨0, .text, .package "org"⟩
  .request key .text (.thenDone key .number (.done (.ok (7 : UInt32))) (.ok "outer")) fun _ =>
    .request key .text (.done (.error (.noSuchKind "later"))) fun _ =>
      .thenDone key .number (.done (.ok (8 : UInt32))) (.ok "done")

/-- The text is handed out, and yet the number stays, also for the requests behind it, one of which
fails and one of which is a hit. -/
theorem cache_only_grows_reentrant :
    let key : CacheKey Kind := ⟨0, .text, .package "org"⟩
    ∃ past now later, reentrantUse.moments .empty = past ++ now :: later ∧
      past.length = 3 ∧ later.length = 3 ∧ now.answer? = some ⟨.text, .ok "outer"⟩ ∧
      now.cache.stored? key = some ⟨.number, (7 : UInt32)⟩ ∧
      (∀ moment ∈ later, Within now.cache moment.cache) ∧
      (reentrantUse.run .empty).cache.hits + (reentrantUse.run .empty).cache.misses = 4 := by
  intro key
  obtain ⟨-, -, hRequests, hMoments⟩ := cache_only_grows reentrantUse
  have hCut : reentrantUse.moments .empty =
      (reentrantUse.moments .empty).take 3 ++ _ :: (reentrantUse.moments .empty).drop 4 := rfl
  obtain ⟨hWithin, hStored, -⟩ := hMoments _ _ _ hCut
  exact ⟨_, _, _, hCut, rfl, rfl, rfl, (hStored key).trans rfl, hWithin, hRequests.trans rfl⟩

end Computation

end Heritage
