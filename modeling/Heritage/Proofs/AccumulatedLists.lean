import Heritage.Proofs.Layers
import Heritage.Proofs.ListOverlay
import Heritage.Proofs.SilentDeclaration
import Mathlib.Data.List.DropRight

/-!
# Lists that accumulate

Shadows and instrumented packages accumulate along a chain. An empty list that is declared discards
what has come before it, and the entries of all other lists are kept where they come first.

* `ListSetting.Accumulated`: what a setting and the lists declared over it come to, said without
  laying any list over another;
* `ListSetting.accumulated_foldl`: lists that are laid over a setting one after another come to
  that;
* `lists_accumulate`: and so do both fields of a resolved set-up.

A field that was declared empty once and then extended still counts as one that replaces.
-/

namespace Heritage

/-! ## Settings and lists declared over them -/

namespace ListSetting

variable {α : Type} [DecidableEq α]

/-- Whether nothing is left of what was there before. -/
def isReplace : ListSetting α → Bool
  | .replace _ => true
  | _ => false

/-- The entries that come from a setting and the lists declared over it: those behind the last empty
list, and all of them if there is no such list. -/
def keptEntries (start : ListSetting α) (declared : List (List α)) : List α :=
  (if [] ∈ declared then [] else start.items) ++ (declared.rtakeWhile (· ≠ [])).flatten

/-- A setting is what another one and the lists declared over it come to. -/
structure Accumulated (start : ListSetting α) (declared : List (List α))
    (result : ListSetting α) : Prop where
  items : result.items = (start.keptEntries declared).eraseDups
  isReplace : result.isReplace ↔ [] ∈ declared ∨ start.isReplace
  isUnset : result.isUnset ↔ start.isUnset ∧ declared = []

/-- A list that is declared, laid over a setting. -/
def accumulate (setting : ListSetting α) (list : List α) : ListSetting α :=
  setting.overlay (.declared .accumulate (some list))

theorem accumulate_nil (setting : ListSetting α) : setting.accumulate [] = .replace [] :=
  overlay_replace setting []

theorem accumulate_of_ne_nil {list : List α} (h : list ≠ []) (setting : ListSetting α) :
    setting.accumulate list = setting.overlay (.extend list) := by
  cases list with
  | nil => exact absurd rfl h
  | cons a rest => rfl

@[simp] theorem items_overlay_extend (setting : ListSetting α) (list : List α) :
    (setting.overlay (.extend list)).items = (setting.items ++ list).eraseDups := by
  rw [← firstEntries_eq_eraseDups]
  cases setting <;> rfl

@[simp] theorem isReplace_overlay_extend (setting : ListSetting α) (list : List α) :
    (setting.overlay (.extend list)).isReplace = setting.isReplace := by
  cases setting <;> rfl

@[simp] theorem isUnset_overlay_extend (setting : ListSetting α) (list : List α) :
    (setting.overlay (.extend list)).isUnset = false := by
  cases setting <;> rfl

theorem keptEntries_concat_nil (start : ListSetting α) (declared : List (List α)) :
    start.keptEntries (declared ++ [[]]) = [] := by
  rw [keptEntries, if_pos (by simp), List.rtakeWhile_concat_neg _ _ _ (by simp)]
  rfl

theorem keptEntries_concat {list : List α} (h : list ≠ []) (start : ListSetting α)
    (declared : List (List α)) :
    start.keptEntries (declared ++ [list]) = start.keptEntries declared ++ list := by
  have hEmpty : [] ∈ declared ++ [list] ↔ [] ∈ declared := by simp [h.symm]
  rw [keptEntries, List.rtakeWhile_concat_pos _ _ _ (by simpa using h), List.flatten_concat,
    if_congr hEmpty rfl rfl, keptEntries, List.append_assoc]

namespace Accumulated

variable {start result : ListSetting α} {declared : List (List α)}

theorem nodup (h : Accumulated start declared result) : result.items.Nodup := by
  rw [h.items]
  exact eraseDups_nodup _

theorem nil (h : start.items.Nodup) : Accumulated start [] start where
  items := by simpa [keptEntries] using (eraseDups_of_nodup h).symm
  isReplace := by simp
  isUnset := by simp

/-- An empty list leaves nothing, and everything after it counts from there. -/
theorem concat_nil (start : ListSetting α) (declared : List (List α)) :
    Accumulated start (declared ++ [[]]) (.replace []) where
  items := by
    rw [keptEntries_concat_nil]
    rfl
  isReplace := by simp [ListSetting.isReplace]
  isUnset := by simp [ListSetting.isUnset]

theorem concat (h : Accumulated start declared result) (list : List α) :
    Accumulated start (declared ++ [list]) (result.accumulate list) := by
  by_cases hEmpty : list = []
  · rw [hEmpty, accumulate_nil]
    exact concat_nil start declared
  · rw [accumulate_of_ne_nil hEmpty]
    constructor
    · rw [items_overlay_extend, h.items, eraseDups_append_left, keptEntries_concat hEmpty]
    · simp [h.isReplace, Ne.symm hEmpty]
    · simp

end Accumulated

theorem accumulated_foldl {start : ListSetting α} (h : start.items.Nodup)
    (declared : List (List α)) :
    Accumulated start declared (declared.foldl accumulate start) := by
  induction declared using List.reverseRecOn with
  | nil => exact .nil h
  | append_singleton declared list ih =>
    rw [List.foldl_concat]
    exact ih.concat list

end ListSetting

/-! ## Fields of set-ups -/

/-- The fields of set-ups that accumulate. -/
inductive AccumulatedField where
  | shadows
  | instrumentedPackages
  deriving DecidableEq, Repr

namespace AccumulatedField

/-- The setting of a field. -/
def get : AccumulatedField → RuntimeSetup → ListSetting String
  | .shadows => RuntimeSetup.shadows
  | .instrumentedPackages => RuntimeSetup.instrumentedPackages

/-- The list that a declaration has for a field. -/
def declared : AccumulatedField → RuntimeSetup.Declaration → Option (List String)
  | .shadows => RuntimeSetup.Declaration.shadows
  | .instrumentedPackages => RuntimeSetup.Declaration.instrumentedPackages

variable (field : AccumulatedField)

theorem get_overlay (parent child : RuntimeSetup) :
    field.get (parent.overlay child) = (field.get parent).overlay (field.get child) := by
  cases field <;> rfl

theorem get_ofDeclaration (d : RuntimeSetup.Declaration) :
    field.get (.ofDeclaration d) = .declared .accumulate (field.declared d) := by
  cases field <;> rfl

/-- The lists declared for a field make of it what they make of its setting. -/
theorem get_foldl_overlay (start : RuntimeSetup) (declarations : List RuntimeSetup.Declaration) :
    field.get ((declarations.map RuntimeSetup.ofDeclaration).foldl RuntimeSetup.overlay start) =
      (declarations.filterMap field.declared).foldl ListSetting.accumulate (field.get start) := by
  rw [List.foldl_map, List.foldl_filterMap]
  refine (List.foldl_hom field.get fun parent d => ?_).symm
  rw [get_overlay, get_ofDeclaration]
  cases field.declared d with
  | none => exact (ListSetting.overlay_unset _).symm
  | some list => rfl

end AccumulatedField

/-- Let the lists of the default set-up repeat nothing, let what a source declares be fixed, and let
no node of a chain fail. Then the set-up that the chain resolves to has, for either field that
accumulates, the entries declared behind the last empty list, with those of the default ahead of
them if there is no such list, each one where it comes first. The field replaces just when a list
was declared empty or the default replaces, and is unset just when the default is and nothing was
declared. -/
theorem lists_accumulate (events : List (Event Kind)) {b : ResolverBuilder Kind}
    (hb : b ∈ (World.empty.run events).builders) {id : Nat} {s : DeclaredSource RuntimeSetup}
    (hr : ⟨id, .runtime, s.extractor⟩ ∈ b.registrations)
    (hFixed : ∀ i target answers, .resolve i target answers ∈ events →
      answers ⟨id, .runtime, s.extractor⟩ = s.extractor)
    {target : Target} {c : Chain} (hc : Chain.ofTarget b.root target = .ok c)
    {answers : Answers Kind} (hNow : answers ⟨id, .runtime, s.extractor⟩ = s.extractor)
    (hStart : ∀ field : AccumulatedField, (field.get s.defaults).items.Nodup)
    (hRead : ∀ node ∈ c.nodes, s.extractor.failure? node = none) :
    ∃ setup : RuntimeSetup,
      ((b.build.answering answers).resolve (World.empty.run events).cache target).outcomeOf
          Kind.runtime = some (.ok setup) ∧
        ∀ field : AccumulatedField,
          let declarations : List RuntimeSetup.Declaration :=
            c.nodes.eraseDups.filterMap s.declaration?
          ListSetting.Accumulated (field.get s.defaults) (declarations.filterMap field.declared)
              (field.get setup) ∧
            (field.get setup).items.Nodup := by
  have hOutcome := World.outcomeOf_of_readable (d := .runtime) hb hr hFixed hc hNow hRead
  refine ⟨_, hOutcome, fun field => ?_⟩
  have hField := ListSetting.accumulated_foldl (hStart field)
    ((c.nodes.eraseDups.filterMap s.declaration?).filterMap field.declared)
  rw [← field.get_foldl_overlay] at hField
  exact ⟨hField, hField.nodup⟩

namespace Fixture

/-- A source that discards the default shadow in a property file and then declares some shadows more
than once. -/
def crowdedSource : DeclaredSource RuntimeSetup where
  metadata := (Metadata.empty.insertType "org.Base"
      (.object [("shadows", .array [.text "Clock", .text "Screen", .text "Clock"])])).insertMember
    "org.Base" "runs" (.object [("instrumentedPackages", .array [.text "org.net"]),
      ("shadows", .array [.text "Screen", .text "Camera"])])
  properties := some ⟨(Resource.Store.ofList [("org/config.properties",
    "shadows:\ninstrumentedPackages: org.io, org.net")]).loader, Resource.defaultFileName⟩
  defaults := ⟨none, none, .extend ["Locale"], .unset⟩

end Fixture

theorem lists_accumulate_of_crowded :
    (∀ field : AccumulatedField, (field.get Fixture.crowdedSource.defaults).items.Nodup) ∧
      (∀ node ∈ Fixture.smallChain.nodes,
        Fixture.crowdedSource.extractor.failure? node = none) ∧
      ∃ setup : RuntimeSetup,
        ((Fixture.soleBuilder .runtime Fixture.crowdedSource.extractor).build.resolve
          (World.empty.run (Fixture.soleEvents .runtime Fixture.crowdedSource.extractor)).cache
          Fixture.smallTarget).outcomeOf Kind.runtime = some (.ok setup) ∧
        setup.shadows.items = ["Clock", "Screen", "Camera"] ∧ setup.shadows.isReplace ∧
        setup.instrumentedPackages.items = ["org.io", "org.net"] ∧
        ¬ setup.instrumentedPackages.isReplace := by
  have hStart : ∀ field : AccumulatedField,
      (field.get Fixture.crowdedSource.defaults).items.Nodup := by
    intro field
    cases field with
    | shadows => exact List.nodup_singleton "Locale"
    | instrumentedPackages => exact List.nodup_nil
  have hRead : ∀ node ∈ Fixture.smallChain.nodes,
      Fixture.crowdedSource.extractor.failure? node = none := by
    decide
  have hNow : (Registration.extractor : Answers Kind)
      ⟨0, .runtime, Fixture.crowdedSource.extractor⟩ = Fixture.crowdedSource.extractor := rfl
  obtain ⟨setup, hOutcome, hLists⟩ := lists_accumulate
    (Fixture.soleEvents .runtime Fixture.crowdedSource.extractor)
    (Fixture.soleBuilder_mem .runtime Fixture.crowdedSource.extractor)
    (Fixture.mem_soleBuilder .runtime Fixture.crowdedSource.extractor)
    (by simp [Fixture.soleEvents]) Fixture.smallChain_ofTarget hNow hStart hRead
  have hShadows := (hLists .shadows).1
  have hPackages := (hLists .instrumentedPackages).1
  refine ⟨hStart, hRead, setup, hOutcome, hShadows.items, ?_, hPackages.items, ?_⟩
  · exact hShadows.isReplace.mpr (.inl List.mem_cons_self)
  · exact mt hPackages.isReplace.mp (by decide)

end Heritage
