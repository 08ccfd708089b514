import Heritage.Proofs.Distinct
import Heritage.Proofs.Place

/-!
# Stages of a chain

A walk passes the nodes of a chain one after another. All but the member are stages: they have a
place in the cache.

* `Chain.stages_linked`: the places of the stages go down step by step;
* `Chain.stages_oneNodeEach`: a chain has no two nodes for one place;
* `Chain.stages_nodup`: only a leading dot of the package makes a stage come twice;
* `Chain.nodes_eraseDups`: the distinct nodes are those of the distinct stages, and the member.

Chains are taken as they are; only `Chain.names_nodup_of_ofTarget` and the facts after it are about
chains that a target has.
-/

namespace Heritage

/-- Whether a node may be the one at a place. Types are known by their names. -/
def Place.Fits : Place → Node → Prop
  | .defaults, .defaults => True
  | .package name, .package name' => name = name'
  | .type _ lineage, .type declared => lineage.getLast? = some declared.name
  | _, _ => False

/-- Stages and the member behind them, each node with its place if it has one. -/
def visitsOf (m : Member) (stages : List (Place × Node)) : List (Option Place × Node) :=
  stages.map (fun stage => (some stage.1, stage.2)) ++ [(none, .member m)]

theorem visitsOf_cons (m : Member) (place : Place) (node : Node) (rest : List (Place × Node)) :
    visitsOf m ((place, node) :: rest) = (some place, node) :: visitsOf m rest := rfl

/-- Stages of which no two have one place but different nodes. -/
def OneNodeEach (stages : List (Place × Node)) : Prop :=
  ∀ a ∈ stages, ∀ b ∈ stages, a.1 = b.1 → a = b

theorem OneNodeEach.tail {stage : Place × Node} {rest : List (Place × Node)}
    (h : OneNodeEach (stage :: rest)) : OneNodeEach rest :=
  fun a ha b hb => h a (List.mem_cons_of_mem stage ha) b (List.mem_cons_of_mem stage hb)

/-- Behind a stage, its place stands for its node only. -/
theorem OneNodeEach.node_of_mem_visitsOf {place : Place} {node : Node}
    {rest : List (Place × Node)} (h : OneNodeEach ((place, node) :: rest)) {m : Member}
    {visit : Option Place × Node} (hVisit : visit ∈ visitsOf m rest)
    (hPlace : visit.1 = some place) : visit.2 = node := by
  rcases List.mem_append.mp hVisit with hStage | hMember
  · obtain ⟨stage, hMem, rfl⟩ := List.mem_map.mp hStage
    have hSame := h stage (List.mem_cons_of_mem _ hMem) (place, node) List.mem_cons_self
      (Option.some.inj hPlace)
    exact congrArg Prod.snd hSame
  · rw [List.mem_singleton.mp hMember] at hPlace
    cases hPlace

namespace Chain

/-- The nodes of a chain without the member, each with its place. -/
def stages (c : Chain) : List (Place × Node) :=
  (.defaults, .defaults) :: c.places

/-- The nodes of a chain, each with its place. The member has none: nothing is stored for it. -/
def visits (c : Chain) : List (Option Place × Node) :=
  visitsOf c.member c.stages

theorem typePlaces_nodes (package : String) (above : List String) (types : List DeclaredType) :
    (typePlaces package above types).map Prod.snd = types.map .type := by
  induction types generalizing above with
  | nil => rfl
  | cons declared rest ih => rw [typePlaces, List.map_cons, ih, List.map_cons]

theorem places_nodes (c : Chain) :
    c.places.map Prod.snd = c.packages.map .package ++ c.types.map .type := by
  rw [places, List.map_append, List.map_map, typePlaces_nodes]
  rfl

theorem places_places (c : Chain) :
    c.places.map Prod.fst =
      c.packages.map .package ++ (typePlaces c.package [] c.types).map Prod.fst := by
  rw [places, List.map_append, List.map_map]
  rfl

theorem nodes_eq_stages (c : Chain) :
    c.nodes = c.stages.map Prod.snd ++ [.member c.member] := by
  rw [stages, List.map_cons, places_nodes, nodes, List.cons_append]

theorem visits_nodes (c : Chain) : c.visits.map Prod.snd = c.nodes := by
  rw [nodes_eq_stages, visits, visitsOf, List.map_append, List.map_map]
  rfl

theorem stages_linked (c : Chain) : Linked none (c.stages.map Prod.fst) := by
  have hLast : (c.packages.map Place.package).getLast?.or (some .defaults) =
      some (.downTo c.package []) := by
    rw [Place.downTo, packages, List.getLast?_map,
      List.getLast?_eq_some_getLast (packageLadder_ne_nil c.package),
      List.getLastD_eq_getLast?, List.getLast?_eq_some_getLast (packageLadder_ne_nil c.package)]
    rfl
  refine ⟨Or.inr rfl, ?_⟩
  rw [places_places, linked_append, hLast]
  exact ⟨packageLadder_linked c.package, typePlaces_linked c.package [] c.types⟩

/-! ## Nodes and places -/

theorem lineage_of_mem_typePlaces {package : String} {above : List String}
    {types : List DeclaredType} {place : Place} {node : Node}
    (h : (place, node) ∈ typePlaces package above types) :
    ∃ lineage declared, place = .type package lineage ∧ node = .type declared ∧
      above.length < lineage.length ∧ lineage.getLast? = some declared.name := by
  induction types generalizing above with
  | nil => cases h
  | cons declared rest ih =>
    rcases List.mem_cons.mp h with hHead | hRest
    · obtain ⟨rfl, rfl⟩ := Prod.mk.inj hHead
      exact ⟨above ++ [declared.name], declared, rfl, rfl, by simp, List.getLast?_concat⟩
    · obtain ⟨lineage, declared', hPlace, hNode, hLength, hName⟩ := ih hRest
      refine ⟨lineage, declared', hPlace, hNode, ?_, hName⟩
      rw [List.length_append] at hLength
      omega

theorem type_not_mem_typePlaces {package : String} {above : List String}
    {types : List DeclaredType} {node : Node} :
    (Place.type package above, node) ∉ typePlaces package above types := by
  intro h
  obtain ⟨lineage, _, hPlace, _, hLength, _⟩ := lineage_of_mem_typePlaces h
  obtain ⟨-, rfl⟩ := Place.type.inj hPlace
  exact absurd hLength (lt_irrefl _)

theorem typePlaces_injective {package : String} {above : List String} {types : List DeclaredType}
    {place : Place} {node node' : Node} (h : (place, node) ∈ typePlaces package above types)
    (h' : (place, node') ∈ typePlaces package above types) : node = node' := by
  induction types generalizing above with
  | nil => cases h
  | cons declared rest ih =>
    rcases List.mem_cons.mp h with hHead | hRest <;> rcases List.mem_cons.mp h' with hHead' | hRest'
    · exact (Prod.mk.inj hHead).2.trans (Prod.mk.inj hHead').2.symm
    · obtain ⟨rfl, rfl⟩ := Prod.mk.inj hHead
      exact absurd hRest' type_not_mem_typePlaces
    · obtain ⟨rfl, rfl⟩ := Prod.mk.inj hHead'
      exact absurd hRest type_not_mem_typePlaces
    · exact ih hRest hRest'

theorem mem_stages {c : Chain} {stage : Place × Node} (h : stage ∈ c.stages) :
    stage = (.defaults, .defaults) ∨ (∃ name ∈ c.packages, stage = (.package name, .package name)) ∨
      stage ∈ typePlaces c.package [] c.types := by
  rcases List.mem_cons.mp h with h | h
  · exact Or.inl h
  · rcases List.mem_append.mp h with h | h
    · obtain ⟨name, hName, rfl⟩ := List.mem_map.mp h
      exact Or.inr (Or.inl ⟨name, hName, rfl⟩)
    · exact Or.inr (Or.inr h)

theorem stages_fits {c : Chain} {stage : Place × Node} (h : stage ∈ c.stages) :
    stage.1.Fits stage.2 := by
  rcases mem_stages h with rfl | ⟨name, -, rfl⟩ | hType
  · trivial
  · rfl
  · obtain ⟨lineage, declared, hPlace, hNode, -, hName⟩ := lineage_of_mem_typePlaces hType
    rw [hPlace, hNode]
    exact hName

theorem stages_oneNodeEach (c : Chain) : OneNodeEach c.stages := by
  intro stage h other h' hPlace
  have hFits := stages_fits h
  have hFits' := stages_fits h'
  obtain ⟨place, node⟩ := stage
  obtain ⟨place', node'⟩ := other
  obtain rfl : place = place' := hPlace
  cases place with
  | defaults => cases node <;> cases node' <;> simp_all [Place.Fits]
  | package name => cases node <;> cases node' <;> simp_all [Place.Fits]
  | type package lineage =>
    have hMem : ∀ {n : Node}, (Place.type package lineage, n) ∈ c.stages →
        (Place.type package lineage, n) ∈ typePlaces c.package [] c.types := by
      intro n hn
      rcases mem_stages hn with hEq | ⟨name, -, hEq⟩ | hType
      · cases hEq
      · cases hEq
      · exact hType
    rw [typePlaces_injective (hMem h) (hMem h')]

theorem typePlaces_nodup (package : String) (above : List String) (types : List DeclaredType) :
    (typePlaces package above types).Nodup := by
  induction types generalizing above with
  | nil => exact List.nodup_nil
  | cons declared rest ih => exact List.nodup_cons.mpr ⟨type_not_mem_typePlaces, ih _⟩

theorem stages_nodup {c : Chain} (h : c.package.toList.head? ≠ some '.') : c.stages.Nodup := by
  have hPackages : (c.packages.map fun name => (Place.package name, Node.package name)).Nodup :=
    (packageLadder_nodup h).map fun _ _ hEq => Place.package.inj (Prod.mk.inj hEq).1
  refine List.nodup_cons.mpr ⟨?_, List.nodup_append.mpr ⟨hPackages, typePlaces_nodup _ _ _, ?_⟩⟩
  · intro hMem
    rcases List.mem_append.mp hMem with hMem | hMem
    · obtain ⟨name, -, hEq⟩ := List.mem_map.mp hMem
      cases hEq
    · obtain ⟨lineage, _, hPlace, _⟩ := lineage_of_mem_typePlaces hMem
      cases hPlace
  · intro stage hPackage other hType hEq
    obtain ⟨name, -, rfl⟩ := List.mem_map.mp hPackage
    subst hEq
    obtain ⟨lineage, _, hPlace, _⟩ := lineage_of_mem_typePlaces hType
    cases hPlace

/-! ## Chains of targets -/

theorem names_nodup_of_configurable {root : Option String} {seen : List String}
    {lineage types : List DeclaredType} (h : configurable root seen lineage = .ok types) :
    (types.map DeclaredType.name).Nodup ∧ ∀ declared ∈ types, declared.name ∉ seen := by
  induction lineage generalizing seen types with
  | nil =>
    cases h
    simp
  | cons first rest ih =>
    unfold configurable at h
    split at h
    · cases h
    · rename_i hSeen
      split at h
      · split at h
        · rename_i hEmpty
          obtain ⟨hNodup, hNew⟩ := ih h
          exact ⟨hNodup, by simp [hEmpty]⟩
        · cases h
      · cases hRest : configurable root (first.name :: seen) rest with
        | error fault => rw [hRest] at h; cases h
        | ok others =>
          rw [hRest] at h
          cases h
          obtain ⟨hNodup, hNew⟩ := ih hRest
          refine ⟨List.nodup_cons.mpr ⟨?_, hNodup⟩, ?_⟩
          · intro hMem
            obtain ⟨declared, hDeclared, hName⟩ := List.mem_map.mp hMem
            exact hNew declared hDeclared (by simp [hName])
          · intro declared hDeclared
            rcases List.mem_cons.mp hDeclared with rfl | hDeclared
            · exact hSeen
            · intro hMem
              exact hNew declared hDeclared (List.mem_cons_of_mem _ hMem)

/-- What a chain has from its target: types that come from the lineage, and the package of the last
one. -/
theorem ofTarget_ok {root : Option String} {t : Target} {c : Chain} (h : ofTarget root t = .ok c) :
    configurable root [] t.lineage = .ok c.types ∧
      ∃ leaf, c.types.getLast? = some leaf ∧ c.package = leaf.package := by
  unfold ofTarget at h
  split at h
  · cases h
  · cases hTypes : configurable root [] t.lineage with
    | error fault => rw [hTypes] at h; cases h
    | ok types =>
      simp only [hTypes, bind, Except.bind] at h
      cases hLeaf : types.getLast? with
      | none => simp [hLeaf] at h
      | some leaf =>
        simp only [hLeaf] at h
        split at h
        · cases h
          exact ⟨rfl, leaf, hLeaf, rfl⟩
        · cases h

theorem names_nodup_of_ofTarget {root : Option String} {t : Target} {c : Chain}
    (h : ofTarget root t = .ok c) : (c.types.map DeclaredType.name).Nodup :=
  (names_nodup_of_configurable (ofTarget_ok h).1).1

theorem typePlaces_place_of_node {package : String} {above : List String}
    {types : List DeclaredType} (hNames : (types.map DeclaredType.name).Nodup)
    {place place' : Place} {node : Node} (h : (place, node) ∈ typePlaces package above types)
    (h' : (place', node) ∈ typePlaces package above types) : place = place' := by
  induction types generalizing above with
  | nil => cases h
  | cons declared rest ih =>
    obtain ⟨hNew, hRestNames⟩ := List.nodup_cons.mp hNames
    have hApart : ∀ {p : Place} {lineage : List String},
        (p, Node.type declared) ∉ typePlaces package lineage rest := by
      intro p lineage hMem
      have hNode : Node.type declared ∈ rest.map Node.type := by
        rw [← typePlaces_nodes package lineage rest]
        exact List.mem_map.mpr ⟨_, hMem, rfl⟩
      obtain ⟨other, hOther, hEq⟩ := List.mem_map.mp hNode
      obtain rfl := Node.type.inj hEq
      exact hNew (List.mem_map_of_mem hOther)
    rcases List.mem_cons.mp h with hHead | hRest <;> rcases List.mem_cons.mp h' with hHead' | hRest'
    · exact (Prod.mk.inj hHead).1.trans (Prod.mk.inj hHead').1.symm
    · obtain ⟨rfl, rfl⟩ := Prod.mk.inj hHead
      exact absurd hRest' hApart
    · obtain ⟨rfl, rfl⟩ := Prod.mk.inj hHead'
      exact absurd hRest hApart
    · exact ih hRestNames hRest hRest'

/-- In the chain of a target a node has one place. -/
theorem place_of_node {root : Option String} {t : Target} {c : Chain}
    (hc : ofTarget root t = .ok c) {stage other : Place × Node} (h : stage ∈ c.stages)
    (h' : other ∈ c.stages) (hNode : stage.2 = other.2) : stage = other := by
  obtain ⟨place, node⟩ := stage
  obtain ⟨place', node'⟩ := other
  obtain rfl : node = node' := hNode
  rcases mem_stages h with hEq | ⟨name, -, hEq⟩ | hType <;>
    rcases mem_stages h' with hEq' | ⟨name', -, hEq'⟩ | hType'
  case inr.inr.inr.inr =>
    rw [typePlaces_place_of_node (names_nodup_of_ofTarget hc) hType hType']
  all_goals
    have hFits := stages_fits h
    have hFits' := stages_fits h'
    cases place <;> cases place' <;> cases node <;> simp_all [Place.Fits]

/-- The distinct nodes of a chain are those of its distinct stages, and the member. -/
theorem nodes_eraseDups {root : Option String} {t : Target} {c : Chain}
    (hc : ofTarget root t = .ok c) :
    c.nodes.eraseDups = c.stages.eraseDups.map Prod.snd ++ [.member c.member] := by
  have hMember : Node.member c.member ∉ c.stages.map Prod.snd := by
    intro hMem
    obtain ⟨stage, hStage, hNode⟩ := List.mem_map.mp hMem
    have hFits := stages_fits hStage
    rw [hNode] at hFits
    cases hPlace : stage.1 <;> simp [hPlace, Place.Fits] at hFits
  rw [nodes_eq_stages, eraseDups_concat_of_not_mem hMember,
    eraseDups_map fun stage h other h' => place_of_node hc h h']

end Chain

end Heritage
