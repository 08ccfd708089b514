import Heritage.Kinds.RuntimeSetup
import Mathlib.Data.List.DropRight

/-!
# Qualifiers after many set-ups

Set-ups are laid over one another, one after another. What a declared value with a plus sign does to
the qualifiers depends on whether there are any by then, which the values before it have settled.

* `RuntimeSetup.settledQualifiers`: the qualifiers that are left, said without laying any value over
  another;
* `RuntimeSetup.layered_extensions`: extensions are appended to what there is, and nothing else;
* `qualifiers_settle`: the qualifiers of set-ups laid over one another are those.

Only a value that was there before all declarations, or a plain one, is sure to keep its plus signs.
Where there is nothing to extend, values that are a plus sign alone leave nothing, and the first
other one loses a single sign; so what is left may begin with a plus sign again.
-/

namespace Heritage

namespace RuntimeSetup

/-- Whether qualifiers extend the inherited ones. -/
def isExtension (qualifiers : String) : Bool :=
  (extension? qualifiers).isSome

/-- Qualifiers, each set off from the one before it by a space. -/
def spaced (first : String) (later : List String) : String :=
  " ".intercalate (first :: later)

/-- The qualifiers that are left of declared values where there is nothing to extend. -/
def standalone (declared : List String) : Option String :=
  match declared.dropWhile (· = "+") with
  | [] => none
  | first :: later => (extension? first).map (spaced · later)

/-- The qualifiers that are left of inherited ones and the values declared one after another. -/
def settledQualifiers (inherited : Option String) (declared : List String) : Option String :=
  match (declared.rdropWhile isExtension).getLast?, inherited with
  | some plain, _ => some (spaced plain (declared.rtakeWhile isExtension))
  | none, some start => some (spaced start declared)
  | none, none => standalone declared

/-- Values laid over inherited qualifiers, one after another. -/
def layered (inherited : Option String) (declared : List String) : Option String :=
  declared.foldl (fun qualifiers value => overlayQualifiers qualifiers (some value)) inherited

@[simp] theorem layered_nil (inherited : Option String) : layered inherited [] = inherited := rfl

@[simp] theorem layered_cons (inherited : Option String) (value : String) (later : List String) :
    layered inherited (value :: later) =
      layered (overlayQualifiers inherited (some value)) later := rfl

theorem layered_append (inherited : Option String) (earlier later : List String) :
    layered inherited (earlier ++ later) = layered (layered inherited earlier) later :=
  List.foldl_append

/-- Only the values that are declared bear on the qualifiers. -/
theorem foldl_overlay_qualifiers (start : RuntimeSetup) (contributions : List RuntimeSetup) :
    (contributions.foldl overlay start).qualifiers =
      layered start.qualifiers (contributions.filterMap (·.qualifiers)) := by
  rw [layered, List.foldl_filterMap]
  refine (List.foldl_hom RuntimeSetup.qualifiers fun parent child => ?_).symm
  rw [overlay]
  cases child.qualifiers with
  | none => exact (overlayQualifiers_none parent.qualifiers).symm
  | some value => rfl

/-! ## Where there is something to extend -/

@[simp] theorem spaced_nil (first : String) : spaced first [] = first :=
  String.intercalate_singleton

theorem spaced_cons (first second : String) (later : List String) :
    spaced (first ++ " " ++ second) later = spaced first (second :: later) := by
  rw [spaced, spaced, String.intercalate_cons_append, String.intercalate_cons_cons]

theorem layered_extensions {declared : List String} (h : ∀ value ∈ declared, isExtension value)
    (inherited : String) : layered (some inherited) declared = some (spaced inherited declared) := by
  induction declared generalizing inherited with
  | nil => simp
  | cons value later ih =>
    obtain ⟨rest, hRest⟩ := Option.isSome_iff_exists.mp (h value List.mem_cons_self)
    rw [layered_cons, overlayQualifiers_of_extension hRest,
      ih (fun other hOther => h other (List.mem_cons_of_mem value hOther)), spaced_cons]

/-- A plain value leaves nothing of what came before it. -/
theorem layered_plain {plain : String} (h : extension? plain = none) (inherited : Option String)
    (earlier : List String) : layered inherited (earlier ++ [plain]) = some plain := by
  rw [layered_append, layered_cons, overlayQualifiers_of_plain h, layered_nil]

/-! ## Where there is nothing to extend -/

theorem layered_plus_signs {declared : List String} (h : ∀ value ∈ declared, value = "+") :
    layered none declared = none := by
  induction declared with
  | nil => rfl
  | cons value later ih =>
    obtain rfl : value = "+" := h value List.mem_cons_self
    exact ih fun other hOther => h other (List.mem_cons_of_mem "+" hOther)

theorem layered_standalone {declared : List String} (h : ∀ value ∈ declared, isExtension value) :
    layered none declared = standalone declared := by
  have hSigns : ∀ value ∈ declared.takeWhile (· = "+"), value = "+" := fun value hValue => by
    simpa using List.mem_takeWhile_imp hValue
  unfold standalone
  conv_lhs => rw [← List.takeWhile_append_dropWhile (p := (· = "+")) (l := declared)]
  rw [layered_append, layered_plus_signs hSigns]
  have hKept : ∀ value ∈ declared.dropWhile (· = "+"), isExtension value := fun value hValue =>
    h value ((List.dropWhile_sublist _).mem hValue)
  have hFirst := List.head?_dropWhile_not (fun value => decide (value = "+")) declared
  split
  · rename_i hDrop
    rw [hDrop, layered_nil]
  · rename_i first later hDrop
    rw [hDrop] at hKept hFirst ⊢
    obtain ⟨rest, hRest⟩ := Option.isSome_iff_exists.mp (hKept first List.mem_cons_self)
    have hSome : rest ≠ "" := by
      rintro rfl
      have hSign := extension?_eq_some_iff.mp hRest
      simp [hSign] at hFirst
    rw [layered_cons, overlayQualifiers_of_nothing hRest, if_neg hSome, hRest, Option.map_some,
      layered_extensions fun value hValue => hKept value (List.mem_cons_of_mem first hValue)]

/-! ## All values -/

theorem layered_eq_settledQualifiers (inherited : Option String) (declared : List String) :
    layered inherited declared = settledQualifiers inherited declared := by
  have hBehind : ∀ value ∈ declared.rtakeWhile isExtension, isExtension value := fun value hValue =>
    List.mem_rtakeWhile_imp hValue
  unfold settledQualifiers
  rcases List.eq_nil_or_concat (declared.rdropWhile isExtension) with hNone | ⟨earlier, plain, hLast⟩
  · have hAll := List.rdropWhile_eq_nil_iff.mp hNone
    rw [hNone, List.getLast?_nil]
    cases inherited with
    | none => exact layered_standalone hAll
    | some start => exact layered_extensions hAll start
  · rw [List.concat_eq_append] at hLast
    have hPlain : extension? plain = none := by
      have hNot := List.rdropWhile_last_not isExtension declared (by simp [hLast])
      simpa [hLast, isExtension] using hNot
    conv_lhs => rw [← List.rdropWhile_append_rtakeWhile (p := isExtension) (l := declared), hLast]
    rw [hLast, List.getLast?_concat, layered_append, layered_plain hPlain,
      layered_extensions hBehind]

example : layered none ["+", "++land", "+night"] = some "+land +night" := rfl

end RuntimeSetup

/-- Let set-ups that are declared be laid over a first one, one after another; a value that is not
empty is a declared one. The last declared value without a plus sign stands first in the qualifiers,
and the values after it follow. Where there is none, the qualifiers of the first set-up stand first,
and all values follow. Where these are missing too, leading values that are a plus sign alone are
skipped, the next one stands first without its plus sign, and the values after it follow; if no
value is left, there are no qualifiers. -/
theorem qualifiers_settle (start : RuntimeSetup) (declarations : List RuntimeSetup.Declaration) :
    ((declarations.map RuntimeSetup.ofDeclaration).foldl RuntimeSetup.overlay start).qualifiers =
      RuntimeSetup.settledQualifiers start.qualifiers
        (declarations.filterMap fun d => d.qualifiers.filter (· ≠ "")) := by
  rw [RuntimeSetup.foldl_overlay_qualifiers, List.filterMap_map,
    RuntimeSetup.layered_eq_settledQualifiers]
  rfl

end Heritage
