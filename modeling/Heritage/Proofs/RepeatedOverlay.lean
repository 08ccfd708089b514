import Heritage.Proofs.Overlay

/-!
# Overlays that are regrouped or repeated

Resource lookups can be laid over one another in any grouping, and once is as good as twice. The
same is true of list settings whose entries have a reflexive, symmetric and transitive equality.
Floats lack the first of these: one that is not a number does not equal itself, and is appended
again each time.

* `OverlayLaws`: the grouping does not matter, what is unset changes nothing, and what is laid over
  twice in a row counts once;
* `ListSetting.overlayLaws`, `ResourceLookup.overlayLaws`: both overlays have these laws, the first
  one given an equivalence;
* `float_overlay_not_again`: a list of floats that counts twice;
* `overlays_regroup_and_repeat`: how much of equality each law needs.

So nothing is lost by folding the front of a chain first.
-/

namespace Heritage

/-- An overlay with these laws does not depend on the grouping, and its right-hand side can be
missing or come again. -/
structure OverlayLaws {β : Type} (overlay : β → β → β) (unset : β) : Prop where
  assoc : ∀ a b c, overlay (overlay a b) c = overlay a (overlay b c)
  right_unset : ∀ a, overlay a unset = a
  right_again : ∀ a b, overlay (overlay a b) b = overlay a b

theorem ListSetting.overlayLaws {α : Type} [BEq α] [EquivBEq α] :
    OverlayLaws ListSetting.overlay (ListSetting.unset : ListSetting α) where
  assoc := overlay_assoc
  right_unset := overlay_unset
  right_again a _ := overlay_again_of_refl (fun entry _ => BEq.refl entry) a

/-! ## Resource lookups -/

namespace ResourceLookup

theorem overlay_assoc (a b c : ResourceLookup) :
    (a.overlay b).overlay c = a.overlay (b.overlay c) := by
  simp only [overlay, Option.or_assoc, ListSetting.overlay_assoc]

theorem overlay_again (a b : ResourceLookup) : (a.overlay b).overlay b = a.overlay b := by
  have hScalar : ∀ x y : Option String, y.or (y.or x) = y.or x := fun x y => by
    rw [← Option.or_assoc, Option.or_self]
  simp only [overlay, hScalar, ListSetting.overlayLaws.right_again]

theorem overlayLaws : OverlayLaws overlay empty where
  assoc := overlay_assoc
  right_unset := overlay_empty
  right_again := overlay_again

theorem empty_overlay_eq_self_iff (b : ResourceLookup) :
    empty.overlay b = b ↔ b.libraries.ExtendsOnce := by
  rw [← ListSetting.unset_overlay_eq_self_iff]
  obtain ⟨manifest, resourceDir, assetDir, packageName, libraries⟩ := b
  simp [overlay, empty]

end ResourceLookup

/-! ## Floats -/

open Float.Model (UnpackedFloat)

/-- What floats are compared by: whether they are infinite, the sign, the mantissa and the exponent.
Zeros of either sign are the same, and what is not a number has nothing to compare. -/
def number? : UnpackedFloat → Option (Bool × UnpackedFloat.Sign × Nat × Int)
  | .infinity sign => some (true, sign, 0, 0)
  | .notANumber => none
  | .zero _ => some (false, .positive, 0, 0)
  | .finite sign mantissa exponent _ => some (false, sign, mantissa, exponent)

theorem compare_unpacked_eq_iff (a b : UnpackedFloat) :
    a.compare b = some .eq ↔ ∃ x, number? a = some x ∧ number? b = some x := by
  rcases a with (_ | _) | _ | _ | ⟨_ | _, m, e, hm⟩ <;>
    rcases b with (_ | _) | _ | _ | ⟨_ | _, m', e', hm'⟩ <;>
      dsimp only [UnpackedFloat.compare, number?]
  case infinity.negative.infinity.negative | infinity.positive.infinity.positive =>
    exact iff_of_true rfl ⟨_, rfl, rfl⟩
  case finite.negative.finite.negative | finite.positive.finite.positive =>
    simp only [Option.some.injEq, Ordering.swap_eq_eq, Ordering.then_eq_eq, Prod.mk.injEq,
      exists_eq_left', true_and, Std.compare_eq_iff_eq]
    exact ⟨fun h => ⟨h.2.symm, h.1.symm⟩, fun h => ⟨h.2.symm, h.1.symm⟩⟩
  case zero.finite.positive | finite.positive.zero =>
    -- the mantissa of a number that is not zero is not zero either
    refine iff_of_false nofun ?_
    rintro ⟨x, hHere, hThere⟩
    have hSame := Option.some.inj (hHere.trans hThere.symm)
    simp only [Prod.mk.injEq] at hSame
    omega
  all_goals simp

theorem float_beq_iff (a b : Float) :
    a == b ↔ ∃ x, number? a.toModel.unpack = some x ∧ number? b.toModel.unpack = some x := by
  rw [← compare_unpacked_eq_iff]
  show (a.toModel.unpack.compare b.toModel.unpack == some .eq) = true ↔ _
  exact beq_iff_eq

instance float_partialEquivBEq : PartialEquivBEq Float where
  symm h := by
    obtain ⟨x, ha, hb⟩ := (float_beq_iff _ _).mp h
    exact (float_beq_iff _ _).mpr ⟨x, hb, ha⟩
  trans hFirst hLast := by
    obtain ⟨x, ha, hb⟩ := (float_beq_iff _ _).mp hFirst
    obtain ⟨y, hb', hc⟩ := (float_beq_iff _ _).mp hLast
    rw [hb] at hb'
    exact (float_beq_iff _ _).mpr ⟨x, ha, hc.trans hb'.symm⟩

namespace Fixture

/-- A float that is not a number. -/
def nan : Float := 0 / 0

end Fixture

/-- A float that equals nothing is appended once more by the same setting. -/
theorem float_overlay_not_again :
    let a : ListSetting Float := .unset
    let b : ListSetting Float := .extend [Fixture.nan]
    a.overlay b = .extend [Fixture.nan] ∧
      (a.overlay b).overlay b = .extend [Fixture.nan, Fixture.nan] ∧
      (a.overlay b).overlay b ≠ a.overlay b := by
  decide

/-- List settings can be laid over one another in any grouping exactly if the equality of entries is
transitive, and laying over the same twice always does what laying it over once does exactly if
equality is reflexive. Where it is symmetric and transitive, the first law holds, and the second one
fails for just those settings that extend by an entry which does not equal itself. Laying over what
is unset changes nothing, and laid over what is unset, just those stay as they are that do not
extend by entries of which one equals a later one. Resource lookups have all of these laws. -/
theorem overlays_regroup_and_repeat :
    (∀ (α : Type) [BEq α],
      ((∀ a b c : ListSetting α, (a.overlay b).overlay c = a.overlay (b.overlay c)) ↔
          ∀ x y z : α, x == y → y == z → x == z) ∧
        (∀ a : ListSetting α, a.overlay .unset = a) ∧
        ((∀ a b : ListSetting α, (a.overlay b).overlay b = a.overlay b) ↔ ∀ x : α, x == x) ∧
        ∀ b : ListSetting α, ListSetting.unset.overlay b = b ↔ b.ExtendsOnce) ∧
      (∀ (α : Type) [BEq α] [PartialEquivBEq α] (a b c : ListSetting α),
        (a.overlay b).overlay c = a.overlay (b.overlay c) ∧
          ((a.overlay b).overlay b = a.overlay b ↔ ∀ entry ∈ b.appended, entry == entry)) ∧
      OverlayLaws ResourceLookup.overlay ResourceLookup.empty ∧
        ∀ b : ResourceLookup, ResourceLookup.empty.overlay b = b ↔ b.libraries.ExtendsOnce :=
  ⟨fun _ _ => ⟨ListSetting.overlay_assoc_iff, ListSetting.overlay_unset,
      ListSetting.overlay_again_iff_refl, ListSetting.unset_overlay_eq_self_iff⟩,
    fun _ _ _ a b c =>
      ⟨ListSetting.overlay_assoc a b c, ListSetting.overlay_again_iff_of_partial a b⟩,
    ResourceLookup.overlayLaws, ResourceLookup.empty_overlay_eq_self_iff⟩

/-- Numbers may come as often as they like. -/
theorem overlays_regroup_and_repeat_of_floats :
    let a : ListSetting Float := .replace [1, 1, Fixture.nan]
    let b : ListSetting Float := .extend [2, 1, 2]
    (∀ entry ∈ b.appended, entry == entry) ∧
      (a.overlay b).overlay b = a.overlay b ∧
      a.overlay b = .replace [1, Fixture.nan, 2] := by
  refine ⟨by decide, ?_, by decide⟩
  exact (overlays_regroup_and_repeat.2.1 Float _ _ .unset).2.mpr (by decide)

/-- A setting that is not the same when it is laid over itself. -/
example : (ListSetting.extend [5, 5]).overlay (.extend [5, 5]) = .extend [5] := by decide

end Heritage
