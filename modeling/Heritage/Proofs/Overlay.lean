import Heritage.Kind
import Heritage.Proofs.ListOverlay

/-!
# Overlays in another grouping

A resolution lays fragments over one another from the top of a chain down. Here three fragments are
laid over one another either way: the second over the first and then the third, or the third over
the second and then both over the first.

* `choice_overlay_assoc_iff`: choices of levels tell the groupings apart just when a bound of the
  first, which the levels of the second have replaced, comes back because the third clears those
  levels;
* `setup_overlay_assoc_iff`: set-ups do just when one grouping drops a plus sign that the other
  keeps, having something to extend.

None of this bears on resolutions, which use the first grouping only.
-/

namespace Heritage

/-! ## Choices of levels -/

namespace SdkChoice

/-- `a` has a bound that is replaced together with all of `a` when `b` is laid over it, and that
nothing replaces when `c`, which clears the levels of `b`, is laid over `b` first. -/
structure Resurfaces (a b c : SdkChoice) : Prop where
  replaced : b.levels ≠ []
  cleared : c.levels = []
  bounded : c.isBounded = true
  bound : (a.lowest ≠ none ∧ b.lowest = none ∧ c.lowest = none) ∨
    (a.highest ≠ none ∧ b.highest = none ∧ c.highest = none)

theorem overlay_assoc_of_levels {c : SdkChoice} (h : c.levels ≠ []) (a b : SdkChoice) :
    (a.overlay b).overlay c = a.overlay (b.overlay c) := by
  rw [overlay_of_levels h, overlay_of_levels h, overlay_of_levels h]

theorem isBounded_or {b c : SdkChoice} (h : c.isBounded = true) (levels : List UInt32) :
    isBounded ⟨levels, c.lowest.or b.lowest, c.highest.or b.highest⟩ = true := by
  unfold isBounded at h ⊢
  cases hLowest : c.lowest <;> cases hHighest : c.highest <;> simp_all

theorem overlay_assoc_of_no_levels {b c : SdkChoice} (hb : b.levels = []) (hc : c.levels = [])
    (hBounded : c.isBounded = true) (a : SdkChoice) :
    (a.overlay b).overlay c = a.overlay (b.overlay c) := by
  rw [overlay_of_bounds hc hBounded, overlay_of_bounds hc hBounded,
    overlay_of_bounds rfl (isBounded_or hBounded [])]
  simp [overlay, hb, Option.or_assoc]

theorem or_or_eq_iff (a b c : Option UInt32) :
    c.or b = (c.or b).or a ↔ ¬ (a ≠ none ∧ b = none ∧ c = none) := by
  cases a <;> cases b <;> cases c <;> simp

/-- Where `c` clears the levels of `b`, nothing but a bound of `a` can differ. -/
theorem overlay_assoc_iff_of_cleared {b c : SdkChoice} (hb : b.levels ≠ []) (hc : c.levels = [])
    (hBounded : c.isBounded = true) (a : SdkChoice) :
    (a.overlay b).overlay c = a.overlay (b.overlay c) ↔ ¬ a.Resurfaces b c := by
  have hResurfaces : a.Resurfaces b c ↔
      (a.lowest ≠ none ∧ b.lowest = none ∧ c.lowest = none) ∨
        (a.highest ≠ none ∧ b.highest = none ∧ c.highest = none) :=
    ⟨fun h => h.bound, fun h => ⟨hb, hc, hBounded, h⟩⟩
  rw [overlay_of_levels hb, overlay_of_bounds hc hBounded,
    overlay_of_bounds rfl (isBounded_or hBounded []), SdkChoice.mk.injEq, hResurfaces, not_or,
    ← or_or_eq_iff, ← or_or_eq_iff]
  simp only [true_and]

end SdkChoice

theorem choice_overlay_assoc_iff (a b c : SdkChoice) :
    (a.overlay b).overlay c = a.overlay (b.overlay c) ↔ ¬ a.Resurfaces b c := by
  by_cases hc : c.levels = []
  · cases hBounded : c.isBounded with
    | false =>
      obtain rfl := SdkChoice.eq_empty hc hBounded
      rw [SdkChoice.overlay_empty, SdkChoice.overlay_empty]
      refine iff_of_true rfl fun h => ?_
      have hc' := h.bounded
      rw [hBounded] at hc'
      cases hc'
    | true =>
      by_cases hb : b.levels = []
      · refine iff_of_true (SdkChoice.overlay_assoc_of_no_levels hb hc hBounded a) fun h => ?_
        exact h.replaced hb
      · exact SdkChoice.overlay_assoc_iff_of_cleared hb hc hBounded a
  · exact iff_of_true (SdkChoice.overlay_assoc_of_levels hc a b) fun h => hc h.cleared

/-- A lower bound, a level, and an upper bound that clears the level. -/
theorem choice_overlay_not_assoc :
    let a : SdkChoice := ⟨[], some 19, none⟩
    let b : SdkChoice := ⟨[21], none, none⟩
    let c : SdkChoice := ⟨[], none, some 30⟩
    (a.overlay b).overlay c = ⟨[], none, some 30⟩ ∧
      a.overlay (b.overlay c) = ⟨[], some 19, some 30⟩ ∧
      (a.overlay b).overlay c ≠ a.overlay (b.overlay c) := by
  decide

/-! ## Set-ups of the runtime -/

namespace RuntimeSetup

/-- A plus sign that one grouping drops and the other keeps. -/
inductive MarkerLost : Option String → Option String → Option String → Prop
  /-- Laid over nothing, `c` loses the plus sign with which it extends `a`. -/
  | skipped {a c rest : String} (h : extension? c = some rest) : MarkerLost (some a) none (some c)
  /-- Laid over nothing twice, `c` loses two plus signs. -/
  | twice {c rest more : String} (h : extension? c = some rest)
      (hRest : extension? rest = some more) : MarkerLost none none (some c)
  /-- A plus sign alone leaves nothing to extend, unless `c` has extended it before. -/
  | bare {c rest : String} (h : extension? c = some rest) : MarkerLost none (some "+") (some c)

theorem ne_of_length_ne {a b : String} (h : a.length ≠ b.length) : some a ≠ some b :=
  fun hSame => h (congrArg String.length (Option.some.inj hSame))

theorem length_of_extension {c rest : String} (h : extension? c = some rest) :
    c.length = rest.length + 1 := by
  rw [extension?_eq_some_iff.mp h, String.length_append, Nat.add_comm]
  rfl

theorem length_overlayQualifiers_le {inherited laid : String} {declared : Option String}
    (h : overlayQualifiers (some inherited) declared = some laid) :
    laid.length ≤ inherited.length + 1 + (declared.getD "").length := by
  cases declared with
  | none =>
    cases h
    omega
  | some declared =>
    cases hDeclared : extension? declared with
    | none =>
      rw [overlayQualifiers_of_plain hDeclared] at h
      cases h
      simp
    | some rest =>
      rw [overlayQualifiers_of_extension hDeclared] at h
      cases h
      simp only [String.length_append, Option.getD_some]
      exact Nat.le_refl _

theorem extension?_join {b more : String} (hb : extension? b = some more) (c : String) :
    extension? (b ++ " " ++ c) = some (more ++ (" " ++ c)) := by
  rw [String.append_assoc]
  exact extension?_append hb (" " ++ c)

theorem overlayQualifiers_assoc_iff_of_absent {c rest : String} (hc : extension? c = some rest)
    (a : Option String) :
    overlayQualifiers (overlayQualifiers a none) (some c) =
        overlayQualifiers a (overlayQualifiers none (some c)) ↔ ¬ MarkerLost a none (some c) := by
  have hLength := length_of_extension hc
  rw [overlayQualifiers_none, overlayQualifiers_of_nothing hc]
  cases a with
  | some inherited =>
    -- only one grouping keeps all of `c`
    refine iff_of_false (fun hSame => ?_) (not_not_intro (.skipped hc))
    rw [overlayQualifiers_of_extension hc] at hSame
    have hShorter := length_overlayQualifiers_le hSame.symm
    have hRest : ((if rest = "" then none else some rest).getD "").length = rest.length := by
      split <;> simp_all
    simp only [String.length_append, hRest] at hShorter
    have hSpace : " ".length = 1 := rfl
    omega
  | none =>
    rw [overlayQualifiers_of_nothing hc]
    by_cases hRest : rest = ""
    · rw [if_pos hRest]
      refine iff_of_true rfl fun h => ?_
      cases h with
      | twice h hMore =>
        rw [hc, hRest] at h
        cases h
        cases hMore
    · rw [if_neg hRest]
      cases hMore : extension? rest with
      | none =>
        rw [overlayQualifiers_of_plain hMore]
        refine iff_of_true rfl fun h => ?_
        cases h with
        | twice h hMore' =>
          rw [hc] at h
          cases h
          rw [hMore] at hMore'
          cases hMore'
      | some more =>
        refine iff_of_false ?_ (not_not_intro (.twice hc hMore))
        have hShorter := length_of_extension hMore
        rw [overlayQualifiers_of_nothing hMore]
        split
        · simp
        · refine ne_of_length_ne ?_
          omega

theorem overlayQualifiers_assoc_of_plain {b : String} (hb : extension? b = none) {c rest : String}
    (hc : extension? c = some rest) (a : Option String) :
    overlayQualifiers (overlayQualifiers a (some b)) (some c) =
      overlayQualifiers a (overlayQualifiers (some b) (some c)) := by
  rw [overlayQualifiers_of_plain hb, overlayQualifiers_of_extension hc,
    overlayQualifiers_of_plain (extension?_append_of_none hb c)]

theorem overlayQualifiers_assoc_of_inherited {b more : String} (hb : extension? b = some more)
    {c rest : String} (hc : extension? c = some rest) (a : String) :
    overlayQualifiers (overlayQualifiers (some a) (some b)) (some c) =
      overlayQualifiers (some a) (overlayQualifiers (some b) (some c)) := by
  rw [overlayQualifiers_of_extension hb, overlayQualifiers_of_extension hc,
    overlayQualifiers_of_extension hc, overlayQualifiers_of_extension (extension?_join hb c)]
  simp only [String.append_assoc]

theorem overlayQualifiers_assoc_iff_of_nothing {b more : String} (hb : extension? b = some more)
    {c rest : String} (hc : extension? c = some rest) :
    overlayQualifiers (overlayQualifiers none (some b)) (some c) =
        overlayQualifiers none (overlayQualifiers (some b) (some c)) ↔
      ¬ MarkerLost none (some b) (some c) := by
  have hFilled : more ++ (" " ++ c) ≠ "" := by
    intro hEmpty
    have hChars := congrArg String.toList hEmpty
    simp at hChars
  rw [overlayQualifiers_of_nothing hb, overlayQualifiers_of_extension hc,
    overlayQualifiers_of_nothing (extension?_join hb c), if_neg hFilled]
  by_cases hMore : more = ""
  · have hPlus : b = "+" := by
      rw [extension?_eq_some_iff.mp hb, hMore]
      rfl
    subst hPlus
    refine iff_of_false ?_ (not_not_intro (.bare hc))
    have hLength := length_of_extension hc
    rw [if_pos hMore, overlayQualifiers_of_nothing hc]
    split
    · simp
    · refine ne_of_length_ne ?_
      simp only [String.length_append]
      omega
  · rw [if_neg hMore, overlayQualifiers_of_extension hc, String.append_assoc]
    refine iff_of_true rfl fun h => ?_
    cases h with
    | bare =>
      cases hb
      exact hMore rfl

theorem overlayQualifiers_assoc_iff (a b c : Option String) :
    overlayQualifiers (overlayQualifiers a b) c = overlayQualifiers a (overlayQualifiers b c) ↔
      ¬ MarkerLost a b c := by
  cases c with
  | none =>
    rw [overlayQualifiers_none, overlayQualifiers_none]
    exact iff_of_true rfl nofun
  | some c =>
    cases hc : extension? c with
    | none =>
      rw [overlayQualifiers_of_plain hc, overlayQualifiers_of_plain hc,
        overlayQualifiers_of_plain hc]
      refine iff_of_true rfl fun h => ?_
      cases h <;> simp_all
    | some rest =>
      cases b with
      | none => exact overlayQualifiers_assoc_iff_of_absent hc a
      | some b =>
        cases hb : extension? b with
        | none =>
          refine iff_of_true (overlayQualifiers_assoc_of_plain hb hc a) fun h => ?_
          cases h
          cases hb
        | some more =>
          cases a with
          | some a => exact iff_of_true (overlayQualifiers_assoc_of_inherited hb hc a) nofun
          | none => exact overlayQualifiers_assoc_iff_of_nothing hb hc

end RuntimeSetup

theorem setup_overlay_assoc_iff (a b c : RuntimeSetup) :
    (a.overlay b).overlay c = a.overlay (b.overlay c) ↔
      ¬ RuntimeSetup.MarkerLost a.qualifiers b.qualifiers c.qualifiers := by
  rw [← RuntimeSetup.overlayQualifiers_assoc_iff, RuntimeSetup.overlay, RuntimeSetup.overlay,
    RuntimeSetup.overlay, RuntimeSetup.overlay, RuntimeSetup.mk.injEq]
  simp [Option.or_assoc, ListSetting.overlay_assoc]

/-- Qualifiers, a declaration without any, and an extension of what is inherited. -/
theorem setup_overlay_not_assoc :
    let a := RuntimeSetup.ofDeclaration ⟨some "en", none, none, none⟩
    let b := RuntimeSetup.ofDeclaration ⟨none, none, none, none⟩
    let c := RuntimeSetup.ofDeclaration ⟨some "+land", none, none, none⟩
    ((a.overlay b).overlay c).qualifiers = some "en +land" ∧
      (a.overlay (b.overlay c)).qualifiers = some "land" ∧
      (a.overlay b).overlay c ≠ a.overlay (b.overlay c) := by
  decide

end Heritage
