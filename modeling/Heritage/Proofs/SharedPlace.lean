import Heritage.Proofs.Settled

/-!
# Places that chains share

Chains of different targets share the entries of the places that they have in common, so a place
must tell apart whatever has been folded on the way to it. The place of a type holds the package
whose ladder comes first and the names of the types down to it; it does not hold the packages that
those types are said to live in.

* `Chain.nodes_of_type_stage`: up to a type, a chain is known by name from the place of the type;
* `shared_type_key`: chains whose walks look up one entry for a type agree up to the type, but for
  the packages of the types before the last one. If an extractor knows types by name, the entry is
  the fold over either chain;
* `shared_type_key_of_other_packages`: those packages may indeed differ.
-/

namespace Heritage

namespace Chain

theorem nodes_of_typePlaces {package package' : String} {above lineage : List String}
    {types : List DeclaredType} {front back : List (Place × Node)} {node : Node}
    (h : typePlaces package above types = front ++ (.type package' lineage, node) :: back) :
    package' = package ∧ ∃ names, lineage = above ++ names ∧
      (front.map Prod.snd ++ [node]).map Node.byName = names.map fun name => .type ⟨name, ""⟩ := by
  induction types generalizing above front with
  | nil => cases front <;> cases h
  | cons declared rest ih =>
    cases front with
    | nil =>
      obtain ⟨hHead, -⟩ := List.cons.inj h
      obtain ⟨hPlace, rfl⟩ := Prod.mk.inj hHead
      obtain ⟨rfl, rfl⟩ := Place.type.inj hPlace
      exact ⟨rfl, [declared.name], rfl, rfl⟩
    | cons stage front =>
      obtain ⟨rfl, hRest⟩ := List.cons.inj h
      obtain ⟨hPackage, names, rfl, hNodes⟩ := ih hRest
      refine ⟨hPackage, declared.name :: names, by simp, ?_⟩
      rw [List.map_cons, List.cons_append, List.map_cons, hNodes, List.map_cons]
      rfl

/-- Up to a type, the place of the type says by name which nodes a chain has. -/
theorem nodes_of_type_stage {c : Chain} {package : String} {lineage : List String}
    {front back : List (Place × Node)} {node : Node}
    (h : c.stages = front ++ (.type package lineage, node) :: back) :
    package = c.package ∧ (front.map Prod.snd ++ [node]).map Node.byName =
      .defaults :: ((packageLadder package).map .package ++
        lineage.map fun name => .type ⟨name, ""⟩) := by
  let ladder : List (Place × Node) :=
    (.defaults, .defaults) :: c.packages.map fun name => (.package name, .package name)
  have hParts : ladder ++ typePlaces c.package [] c.types =
      front ++ (.type package lineage, node) :: back := h
  have hLadder : (ladder.map Prod.snd).map Node.byName =
      .defaults :: (packageLadder c.package).map .package := by
    simp only [ladder, List.map_cons, List.map_map]
    rfl
  have hApart : ∀ rest, ladder ≠ front ++ (.type package lineage, node) :: rest := by
    intro rest hEq
    have hMem : (Place.type package lineage, node) ∈ ladder := by simp [hEq]
    simp [ladder] at hMem
  rcases List.append_eq_append_iff.mp hParts with ⟨types, rfl, hTypes⟩ | ⟨rest, hFront, hBack⟩
  · obtain ⟨rfl, names, rfl, hNodes⟩ := nodes_of_typePlaces hTypes
    refine ⟨rfl, ?_⟩
    have hCut : (ladder ++ types).map Prod.snd ++ [node] =
        ladder.map Prod.snd ++ (types.map Prod.snd ++ [node]) := by simp
    rw [hCut, List.map_append, hLadder, hNodes]
    rfl
  · cases rest with
    | nil =>
      have hTypes : typePlaces c.package [] c.types =
          [] ++ (.type package lineage, node) :: back := hBack.symm
      obtain ⟨rfl, names, rfl, hNodes⟩ := nodes_of_typePlaces hTypes
      refine ⟨rfl, ?_⟩
      rw [← hFront.trans (List.append_nil front), List.map_append, hLadder]
      simpa using hNodes
    | cons stage rest =>
      obtain ⟨rfl, -⟩ := List.cons.inj hBack
      exact absurd hFront (hApart rest)

/-- The last stage of a chain is the type that the chain has its package from. -/
theorem leaf_of_last_stage {root : Option String} {t : Target} {c : Chain}
    (hc : ofTarget root t = .ok c) {package : String} {lineage : List String}
    {front : List (Place × Node)} {node : Node}
    (h : c.stages = front ++ [(.type package lineage, node)]) :
    ∃ declared, node = .type declared ∧ declared.package = package ∧
      lineage.getLast? = some declared.name := by
  obtain ⟨-, leaf, hLeaf, hPackage⟩ := ofTarget_ok hc
  have hMem : (Place.type package lineage, node) ∈ c.stages := by simp [h]
  have hFits := stages_fits hMem
  have hLast : c.types.map Node.type ≠ [] := by
    intro hNil
    rw [List.map_eq_nil_iff.mp hNil] at hLeaf
    cases hLeaf
  have hNode : some node = (c.types.map Node.type).getLast? := by
    have hStages : c.stages.map Prod.snd = front.map Prod.snd ++ [node] := by
      rw [h, List.map_append]
      rfl
    have hEnd : (c.stages.map Prod.snd).getLast? = some node := by
      rw [hStages, List.getLast?_concat]
    rw [← hEnd, stages, List.map_cons, places_nodes, ← List.cons_append,
      List.getLast?_append_of_ne_nil _ hLast]
  rw [List.getLast?_map, hLeaf] at hNode
  obtain rfl := Option.some.inj hNode
  exact ⟨leaf, rfl, hPackage.symm.trans (nodes_of_type_stage h).1.symm, hFits⟩

end Chain

/-! ## Two chains -/

section

variable {κ : Type} [FragmentFamily κ] [DecidableEq κ]

/-- When the walks of two chains look up the same entry for a type, the chains have the same nodes
in the same order up to the type, types being compared by name. Where the type is the last one of
both chains it has the same package in both. If every fetch fetches what `base` does, or fails, and
`base` knows types by their names, whatever has been stored there is the fold of `base` over the
distinct nodes of either chain up to the type. -/
theorem shared_type_key (r : Registration κ) {root : Option String} {t t' : Target} {c c' : Chain}
    (hc : Chain.ofTarget root t = .ok c) (hc' : Chain.ofTarget root t' = .ok c')
    {package : String} {lineage : List String} {place' : Place} {node node' : Node}
    {front back front' back' : List (Place × Node)}
    (hStage : c.stages = front ++ (.type package lineage, node) :: back)
    (hStage' : c'.stages = front' ++ (place', node') :: back')
    (hKey : r.key (.type package lineage) = r.key place') :
    (front.map Prod.snd ++ [node]).map Node.byName =
        (front'.map Prod.snd ++ [node']).map Node.byName ∧
      (back = [] → back' = [] → node = node') ∧
      ∀ base : Extractor (Fragment r.kind), base.ByName →
        ∀ events : List (Event κ), (World.empty.run events).Registers r →
        (∀ i target answers, .resolve i target answers ∈ events → (answers r).Within base) →
        ∀ entry, (World.empty.run events).cache.stored? (r.key place') = some entry →
          ∃ f, entry = ⟨r.kind, f⟩ ∧
            base.foldFrom base.initial ((front ++ [(place', node)]).eraseDups.map Prod.snd) =
              .ok f ∧
            base.foldFrom base.initial ((front' ++ [(place', node')]).eraseDups.map Prod.snd) =
              .ok f := by
  obtain rfl : Place.type package lineage = place' := congrArg CacheKey.place hKey
  have hNodes := (Chain.nodes_of_type_stage hStage).2.trans
    (Chain.nodes_of_type_stage hStage').2.symm
  refine ⟨hNodes, ?_, ?_⟩
  · rintro rfl rfl
    obtain ⟨declared, rfl, hPackage, hName⟩ := Chain.leaf_of_last_stage hc hStage
    obtain ⟨declared', rfl, hPackage', hName'⟩ := Chain.leaf_of_last_stage hc' hStage'
    have hSame : declared.name = declared'.name := Option.some.inj (hName.symm.trans hName')
    cases declared
    cases declared'
    simp_all
  · intro base hName events hr hWithin entry hEntry
    obtain ⟨f, rfl, hFold⟩ := World.entry_eq_fold hr hName hWithin hStage hEntry
    obtain ⟨f', hSame, hFold'⟩ := World.entry_eq_fold hr hName hWithin hStage' hEntry
    cases hSame
    exact ⟨f, rfl, hFold, hFold'⟩

end

/-! ## Types that live elsewhere -/

/-- A target whose first type is said to live in the package `home`. -/
def targetWithBaseIn (home : String) : Target :=
  ⟨[⟨"org.Base", home⟩, ⟨"org.Leaf", "org"⟩], ⟨"org.Base", "runs"⟩⟩

/-- The chain of `targetWithBaseIn home`. -/
def chainWithBaseIn (home : String) : Chain :=
  ⟨"org.Leaf#runs", "org", [⟨"org.Base", home⟩, ⟨"org.Leaf", "org"⟩], ⟨"org.Base", "runs"⟩⟩

/-- The first type in `chainWithBaseIn home`. -/
def baseStage (home : String) : Place × Node :=
  (.type "org" ["org.Base"], .type ⟨"org.Base", home⟩)

/-- What comes before the first type in `chainWithBaseIn home`. -/
def stagesAboveBase : List (Place × Node) :=
  [(.defaults, .defaults), (.package "", .package ""), (.package "org", .package "org")]

/-- What comes behind the first type in `chainWithBaseIn home`. -/
def stagesBelowBase : List (Place × Node) :=
  [(.type "org" ["org.Base", "org.Leaf"], .type ⟨"org.Leaf", "org"⟩)]

theorem chainWithBaseIn_ofTarget (home : String) :
    Chain.ofTarget none (targetWithBaseIn home) = .ok (chainWithBaseIn home) := by
  have hFirst : "org.Leaf" ≠ "org.Base" := by decide
  simp [Chain.ofTarget, Chain.configurable, targetWithBaseIn, chainWithBaseIn, hFirst, Target.text,
    Target.leaf?, Except.map, bind, Except.bind]

theorem chainWithBaseIn_stages (home : String) :
    (chainWithBaseIn home).stages = stagesAboveBase ++ baseStage home :: stagesBelowBase := by
  have hPackages : packageLadder "org" = ["", "org"] := by decide
  simp [chainWithBaseIn, Chain.stages, Chain.places, Chain.packages, hPackages, stagesAboveBase,
    baseStage, stagesBelowBase, typePlaces]

/-- An entry that two chains share, for a type that is said to live in different packages. -/
theorem shared_type_key_of_base :
    let events := Fixture.trailEvents (targetWithBaseIn "one") Registration.extractor
    let key := Fixture.trailRegistration.key (.type "org" ["org.Base"])
    Chain.ofTarget none (targetWithBaseIn "one") = .ok (chainWithBaseIn "one") ∧
      Chain.ofTarget none (targetWithBaseIn "two") = .ok (chainWithBaseIn "two") ∧
      (∃ entry, (World.empty.run events).cache.stored? key = some entry) ∧
      ∀ entry, (World.empty.run events).cache.stored? key = some entry →
        ∃ f, entry = ⟨.trail, f⟩ ∧
          Fixture.trailExtractor.foldFrom Fixture.trailExtractor.initial
            ((stagesAboveBase ++ [baseStage "one"]).eraseDups.map Prod.snd) = .ok f ∧
          Fixture.trailExtractor.foldFrom Fixture.trailExtractor.initial
            ((stagesAboveBase ++ [baseStage "two"]).eraseDups.map Prod.snd) = .ok f := by
  intro events key
  have hWithin : ∀ i target answers, .resolve i target answers ∈ events →
      (answers Fixture.trailRegistration).Within Fixture.trailExtractor := by
    intro i target answers hMem
    rw [Fixture.answers_of_resolve_mem_trailEvents hMem]
    exact .refl Fixture.trailExtractor
  obtain ⟨-, -, hShared⟩ := shared_type_key Fixture.trailRegistration
    (chainWithBaseIn_ofTarget "one") (chainWithBaseIn_ofTarget "two")
    (chainWithBaseIn_stages "one") (chainWithBaseIn_stages "two") rfl
  exact ⟨chainWithBaseIn_ofTarget "one", chainWithBaseIn_ofTarget "two", ⟨_, rfl⟩,
    hShared Fixture.trailExtractor Fixture.trailExtractor_byName events
      ⟨Fixture.trailBuilder, List.mem_cons_self, List.mem_cons_self⟩ hWithin⟩

/-- A place does not tell apart types of one name that are said to live in different packages. -/
theorem shared_type_key_of_other_packages :
    Chain.ofTarget none (targetWithBaseIn "one") = .ok (chainWithBaseIn "one") ∧
      Chain.ofTarget none (targetWithBaseIn "two") = .ok (chainWithBaseIn "two") ∧
      (chainWithBaseIn "one").stages = stagesAboveBase ++ baseStage "one" :: stagesBelowBase ∧
      (chainWithBaseIn "two").stages = stagesAboveBase ++ baseStage "two" :: stagesBelowBase ∧
      (∀ r : Registration Kind, r.key (baseStage "one").1 = r.key (baseStage "two").1) ∧
      (stagesAboveBase ++ [baseStage "one"]).map Prod.snd ≠
        (stagesAboveBase ++ [baseStage "two"]).map Prod.snd :=
  ⟨chainWithBaseIn_ofTarget "one", chainWithBaseIn_ofTarget "two", chainWithBaseIn_stages "one",
    chainWithBaseIn_stages "two", fun _ => rfl, by decide⟩

end Heritage
