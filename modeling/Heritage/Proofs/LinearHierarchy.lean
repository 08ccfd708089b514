import Heritage.Proofs.Tour
import Heritage.Proofs.World

/-!
# Linear hierarchies

A chain is built in one pass over the lineage, which gathers types and looks for faults at the same
time. What is accepted can be said without that pass, and so can the fault that is named where there
are several.

* `Chain.configurable_eq`: the pass stops at the first position with a fault, and otherwise leaves
  the types that are not the root of the platform;
* `Chain.linear_iff`: no fault is left just when the hierarchy is linear;
* `chain_iff_linear`: the targets that have a chain, the nodes of that chain, and the fault that is
  named for all other targets.
-/

namespace Heritage

namespace Chain

variable {root : Option String} {t : Target}

/-! ## What a hierarchy must meet -/

/-- The types of a lineage without the root of the platform. -/
def remaining (root : Option String) (lineage : List DeclaredType) : List DeclaredType :=
  lineage.filter (root ≠ some ·.name)

/-- Whether a target has a linear hierarchy, given the root of the platform. -/
structure Linear (root : Option String) (t : Target) : Prop where
  filled : t.lineage ≠ []
  distinct : (t.lineage.map DeclaredType.name).Nodup
  root_first : ∀ i type, t.lineage[i]? = some type → root = some type.name → i = 0
  remains : remaining root t.lineage ≠ []
  declares : t.member.owner ∈ (remaining root t.lineage).map DeclaredType.name

/-- What is wrong with a position of a lineage. A name that came before counts more than a root that
is not the first type. -/
def faultAt? (root : Option String) (lineage : List DeclaredType) (i : Nat) : Option Fault :=
  lineage[i]?.bind fun type =>
    if type.name ∈ (lineage.take i).map DeclaredType.name then some (.repeated type.name)
    else if root = some type.name ∧ i ≠ 0 then some (.misplacedRoot type.name)
    else none

/-- What is wrong with the first position of a lineage that has a fault. -/
def positionFault? (root : Option String) (lineage : List DeclaredType) : Option Fault :=
  (List.range lineage.length).findSome? (faultAt? root lineage)

/-- The fault that counts when several things are wrong with a hierarchy. -/
def fault? (root : Option String) (t : Target) : Option Fault :=
  if t.lineage = [] then some .emptyLineage
  else
    (positionFault? root t.lineage).or
      (if remaining root t.lineage = [] then some .nothingLeft
      else if t.member.owner ∈ (remaining root t.lineage).map DeclaredType.name then none
      else some (.foreignMember t.member.owner))

/-! ## The pass over a lineage -/

theorem faultAt?_append (earlier rest : List DeclaredType) (type : DeclaredType) :
    faultAt? root (earlier ++ type :: rest) earlier.length =
      if type.name ∈ earlier.map DeclaredType.name then some (.repeated type.name)
      else if root = some type.name ∧ earlier ≠ [] then some (.misplacedRoot type.name)
      else none := by
  simp [faultAt?]

theorem remaining_cons_of_root {type : DeclaredType} (h : root = some type.name)
    (rest : List DeclaredType) : remaining root (type :: rest) = remaining root rest :=
  List.filter_cons_of_neg (by simpa using h)

theorem remaining_cons_of_ne {type : DeclaredType} (h : root ≠ some type.name)
    (rest : List DeclaredType) : remaining root (type :: rest) = type :: remaining root rest :=
  List.filter_cons_of_pos (by simpa using h)

/-- The pass behind the types `earlier`, whose names it has seen. -/
theorem configurable_append (earlier rest : List DeclaredType) :
    configurable root (earlier.map DeclaredType.name).reverse rest =
      match (List.range' earlier.length rest.length).findSome?
        (faultAt? root (earlier ++ rest)) with
      | some fault => .error fault
      | none => .ok (remaining root rest) := by
  induction rest generalizing earlier with
  | nil => rfl
  | cons type rest ih =>
    -- what the pass does behind `type` is what it does behind one type more
    have hNext := ih (earlier ++ [type])
    rw [List.map_append, List.map_singleton, List.reverse_concat, List.append_assoc,
      List.singleton_append, List.length_append, List.length_singleton] at hNext
    rw [configurable, List.length_cons, List.range'_succ, List.findSome?_cons, faultAt?_append]
    by_cases hSeen : type.name ∈ earlier.map DeclaredType.name
    · rw [if_pos (List.mem_reverse.mpr hSeen), if_pos hSeen]
    · rw [if_neg (mt List.mem_reverse.mp hSeen), if_neg hSeen]
      by_cases hRoot : root = some type.name
      · rw [if_pos hRoot, remaining_cons_of_root hRoot]
        by_cases hFirst : earlier = []
        · subst hFirst
          have hUnseen : ([].map DeclaredType.name).reverse = [] := rfl
          rw [if_pos hUnseen, if_neg fun h => h.2 rfl]
          exact hNext
        · rw [if_neg (by simpa using hFirst), if_pos ⟨hRoot, hFirst⟩]
      · rw [if_neg hRoot, if_neg fun h => hRoot h.1, remaining_cons_of_ne hRoot, hNext]
        cases (List.range' (earlier.length + 1) rest.length).findSome?
          (faultAt? root (earlier ++ type :: rest)) <;> rfl

theorem configurable_eq (root : Option String) (lineage : List DeclaredType) :
    configurable root [] lineage =
      match positionFault? root lineage with
      | some fault => .error fault
      | none => .ok (remaining root lineage) := by
  rw [positionFault?, List.range_eq_range']
  exact configurable_append [] lineage

/-! ## Faults and linear hierarchies -/

theorem faultAt?_eq_none_iff {lineage : List DeclaredType} {i : Nat} {type : DeclaredType}
    (h : lineage[i]? = some type) :
    faultAt? root lineage i = none ↔
      type.name ∉ (lineage.take i).map DeclaredType.name ∧ (root = some type.name → i = 0) := by
  rw [faultAt?, h, Option.bind_some]
  by_cases hSeen : type.name ∈ (lineage.take i).map DeclaredType.name
  · simp only [if_pos hSeen, reduceCtorEq, false_iff]
    exact fun h => h.1 hSeen
  · rw [if_neg hSeen]
    by_cases hRoot : root = some type.name ∧ i ≠ 0
    · simp only [if_pos hRoot, reduceCtorEq, false_iff]
      exact fun h => hRoot.2 (h.2 hRoot.1)
    · simp only [if_neg hRoot, true_iff]
      exact ⟨hSeen, fun h => by_contra fun hi => hRoot ⟨h, hi⟩⟩

/-- Names are distinct just when none of them is among those before it. -/
theorem nodup_iff_not_mem_take {names : List String} :
    names.Nodup ↔ ∀ i name, names[i]? = some name → name ∉ names.take i := by
  rw [List.Nodup, List.pairwise_iff_getElem]
  constructor
  · intro h i name hName hMem
    obtain ⟨hi, rfl⟩ := List.getElem?_eq_some_iff.mp hName
    obtain ⟨j, hj, hSame⟩ := List.mem_take_iff_getElem.mp hMem
    exact h j i (by omega) hi (by omega) hSame
  · intro h i j hi hj hLess hSame
    refine h j names[j] (List.getElem?_eq_getElem hj) ?_
    exact List.mem_take_iff_getElem.mpr ⟨i, by omega, hSame⟩

theorem positionFault?_eq_none_iff {lineage : List DeclaredType} :
    positionFault? root lineage = none ↔
      (lineage.map DeclaredType.name).Nodup ∧
        ∀ i type, lineage[i]? = some type → root = some type.name → i = 0 := by
  have hPositions : positionFault? root lineage = none ↔
      ∀ i type, lineage[i]? = some type → faultAt? root lineage i = none := by
    rw [positionFault?, List.findSome?_eq_none_iff]
    constructor
    · intro h i type hType
      obtain ⟨hi, -⟩ := List.getElem?_eq_some_iff.mp hType
      exact h i (List.mem_range.mpr hi)
    · intro h i hi
      exact h i _ (List.getElem?_eq_getElem (List.mem_range.mp hi))
  have hNames : (lineage.map DeclaredType.name).Nodup ↔ ∀ i type, lineage[i]? = some type →
      type.name ∉ (lineage.take i).map DeclaredType.name := by
    rw [nodup_iff_not_mem_take]
    refine forall_congr' fun i => ?_
    simp only [List.getElem?_map, Option.map_eq_some_iff, ← List.map_take, forall_exists_index,
      and_imp, forall_apply_eq_imp_iff₂]
  rw [hPositions, hNames, ← forall_and]
  refine forall_congr' fun i => ?_
  rw [← forall_and]
  refine forall_congr' fun type => ?_
  rw [← imp_and]
  exact imp_congr_right faultAt?_eq_none_iff

theorem fault?_eq_none_iff :
    fault? root t = none ↔ t.lineage ≠ [] ∧ positionFault? root t.lineage = none ∧
      remaining root t.lineage ≠ [] ∧
      t.member.owner ∈ (remaining root t.lineage).map DeclaredType.name := by
  unfold fault?
  by_cases hEmpty : t.lineage = []
  · simp [hEmpty]
  · rw [if_neg hEmpty, Option.or_eq_none_iff]
    refine (and_congr_right fun _ => ?_).trans (and_iff_right hEmpty).symm
    by_cases hRemains : remaining root t.lineage = []
    · simp [hRemains]
    · rw [if_neg hRemains]
      refine Iff.trans ?_ (and_iff_right hRemains).symm
      by_cases hDeclares : t.member.owner ∈ (remaining root t.lineage).map DeclaredType.name
      · exact iff_of_true (if_pos hDeclares) hDeclares
      · exact iff_of_false (by rw [if_neg hDeclares]; exact Option.some_ne_none _) hDeclares

theorem linear_iff : Linear root t ↔ fault? root t = none := by
  rw [fault?_eq_none_iff, positionFault?_eq_none_iff]
  constructor
  · intro h
    exact ⟨h.filled, ⟨h.distinct, h.root_first⟩, h.remains, h.declares⟩
  · rintro ⟨hFilled, ⟨hDistinct, hRoot⟩, hRemains, hDeclares⟩
    exact ⟨hFilled, hDistinct, hRoot, hRemains, hDeclares⟩

/-! ## Chains of targets -/

/-- The most derived type is no root that is left out. -/
theorem Linear.getLast?_remaining (h : Linear root t) :
    (remaining root t.lineage).getLast? = t.leaf? := by
  obtain ⟨front, leaf, hLineage⟩ := (List.eq_nil_or_concat t.lineage).resolve_left h.filled
  rw [List.concat_eq_append] at hLineage
  have hLeaf : root ≠ some leaf.name := by
    intro hRoot
    have hFirst := h.root_first front.length leaf (by simp [hLineage]) hRoot
    obtain rfl := List.length_eq_zero_iff.mp hFirst
    refine h.remains ?_
    rw [hLineage]
    exact remaining_cons_of_root hRoot []
  rw [Target.leaf?, hLineage, remaining, List.filter_append,
    List.filter_cons_of_pos (by simpa using hLeaf)]
  simp

theorem ofTarget_of_fault {fault : Fault} (h : fault? root t = some fault) :
    ofTarget root t = .error fault := by
  unfold fault? at h
  unfold ofTarget
  by_cases hEmpty : t.lineage = []
  · rw [if_pos hEmpty] at h ⊢
    rw [Option.some.inj h]
  · rw [if_neg hEmpty] at h ⊢
    rw [configurable_eq]
    cases hPosition : positionFault? root t.lineage with
    | some first =>
      rw [hPosition, Option.some_or] at h
      rw [Option.some.inj h]
      rfl
    | none =>
      rw [hPosition, Option.none_or] at h
      by_cases hRemains : remaining root t.lineage = []
      · rw [if_pos hRemains] at h
        rw [hRemains, ← Option.some.inj h]
        rfl
      · rw [if_neg hRemains] at h
        have hLast := List.getLast?_eq_some_getLast hRemains
        by_cases hDeclares : t.member.owner ∈ (remaining root t.lineage).map DeclaredType.name
        · rw [if_pos hDeclares] at h
          cases h
        · rw [if_neg hDeclares] at h
          simp only [bind, Except.bind, hLast, if_neg hDeclares, Option.some.inj h]

theorem ofTarget_of_linear (h : Linear root t) {leaf : DeclaredType} (hLeaf : t.leaf? = some leaf) :
    ofTarget root t = .ok ⟨t.text, leaf.package, remaining root t.lineage, t.member⟩ := by
  have hPosition : positionFault? root t.lineage = none :=
    positionFault?_eq_none_iff.mpr ⟨h.distinct, h.root_first⟩
  rw [← h.getLast?_remaining] at hLeaf
  rw [ofTarget, if_neg h.filled, configurable_eq, hPosition]
  simp only [bind, Except.bind, hLeaf, if_pos h.declares]

theorem ofTarget_eq_ok_iff {c : Chain} :
    ofTarget root t = .ok c ↔ Linear root t ∧ ∃ leaf, t.leaf? = some leaf ∧
      c = ⟨t.text, leaf.package, remaining root t.lineage, t.member⟩ := by
  constructor
  · intro hc
    have hLinear : Linear root t := by
      rw [linear_iff]
      by_contra hFault
      obtain ⟨fault, hFault⟩ := Option.ne_none_iff_exists'.mp hFault
      rw [ofTarget_of_fault hFault] at hc
      cases hc
    have hLeaf := List.getLast?_eq_some_getLast hLinear.filled
    rw [ofTarget_of_linear hLinear hLeaf] at hc
    exact ⟨hLinear, _, hLeaf, (Except.ok.inj hc).symm⟩
  · rintro ⟨hLinear, leaf, hLeaf, rfl⟩
    exact ofTarget_of_linear hLinear hLeaf

theorem exists_ofTarget_iff : (∃ c, ofTarget root t = .ok c) ↔ Linear root t := by
  constructor
  · rintro ⟨c, hc⟩
    exact (ofTarget_eq_ok_iff.mp hc).1
  · intro hLinear
    exact ⟨_, ofTarget_of_linear hLinear (List.getLast?_eq_some_getLast hLinear.filled)⟩

theorem ofTarget_eq_error_iff {fault : Fault} :
    ofTarget root t = .error fault ↔ fault? root t = some fault := by
  refine ⟨fun hError => ?_, ofTarget_of_fault⟩
  have hFault : fault? root t ≠ none := by
    intro hNone
    obtain ⟨c, hc⟩ := exists_ofTarget_iff.mpr (linear_iff.mpr hNone)
    rw [hc] at hError
    cases hError
  obtain ⟨other, hOther⟩ := Option.ne_none_iff_exists'.mp hFault
  rw [ofTarget_of_fault hOther] at hError
  rw [hOther, Except.error.inj hError]

end Chain

/-- A target has a chain just when its hierarchy is linear. The chain has the defaults, the packages
down to that of the most derived type, the types of the lineage without the root, and the member; no
name of a type comes twice in it. Without a chain, the fault that counts first is the reason that
every resolver gives. -/
theorem chain_iff_linear (κ : Type) [FragmentFamily κ] [DecidableEq κ] (root : Option String)
    (t : Target) :
    ((∃ c, Chain.ofTarget root t = .ok c) ↔ Chain.Linear root t) ∧
    (∀ c, Chain.ofTarget root t = .ok c → ∃ leaf, t.leaf? = some leaf ∧
      c.nodes = .defaults :: ((packageLadder leaf.package).map .package ++
        (Chain.remaining root t.lineage).map .type ++ [.member t.member]) ∧
      ((Chain.remaining root t.lineage).map DeclaredType.name).Nodup) ∧
    (∀ fault, Chain.ofTarget root t = .error fault ↔ Chain.fault? root t = some fault) ∧
    ∀ (resolver : Resolver κ) (cache : Cache κ) (fault : Chain.Fault),
      resolver.root = root → Chain.fault? root t = some fault →
        resolver.resolve cache t = ⟨.error (.ambiguous t.text fault.message), cache, []⟩ := by
  refine ⟨Chain.exists_ofTarget_iff, ?_, fun _ => Chain.ofTarget_eq_error_iff, ?_⟩
  · intro c hc
    have hNames := Chain.names_nodup_of_ofTarget hc
    obtain ⟨-, leaf, hLeaf, rfl⟩ := Chain.ofTarget_eq_ok_iff.mp hc
    exact ⟨leaf, hLeaf, rfl, hNames⟩
  · rintro resolver cache fault rfl hFault
    exact Resolver.resolve_of_fault (Chain.ofTarget_of_fault hFault) cache

namespace Fixture

/-- The small target below the root of the platform. -/
def rootedTarget : Target := { smallTarget with lineage := .ofName "Object" :: smallTarget.lineage }

/-- A lineage that names the root behind a type, and then that type again. -/
def tangledTarget : Target :=
  ⟨[.ofName "org.Base", .ofName "Object", .ofName "org.Base"], ⟨"org.Base", "runs"⟩⟩

end Fixture

/-- Below the root the small target has the chain that it has without; of the two faults of a
tangled lineage the first one is the reason. -/
theorem chain_iff_linear_of_rooted :
    Chain.Linear (some "Object") Fixture.rootedTarget ∧
      (∃ c, Chain.ofTarget (some "Object") Fixture.rootedTarget = .ok c ∧
        c.nodes = Fixture.smallChain.nodes) ∧
      ((⟨some "Object", []⟩ : Resolver Kind).resolve .empty Fixture.tangledTarget).outcome =
        .error (.ambiguous "org.Base#runs"
          "platform root 'Object' must be the most-base type") := by
  obtain ⟨hLinear, hNodes, -, -⟩ := chain_iff_linear Kind (some "Object") Fixture.rootedTarget
  have hc : Chain.ofTarget (some "Object") Fixture.rootedTarget = .ok Fixture.smallChain := by
    decide
  refine ⟨hLinear.mp ⟨_, hc⟩, ⟨_, hc, ?_⟩, ?_⟩
  · obtain ⟨leaf, hLeaf, hEq, -⟩ := hNodes _ hc
    obtain rfl := Option.some.inj hLeaf
    exact hEq
  · obtain ⟨-, -, -, hFails⟩ := chain_iff_linear Kind (some "Object") Fixture.tangledTarget
    have hFault : Chain.fault? (some "Object") Fixture.tangledTarget =
        some (.misplacedRoot "Object") := by decide
    exact congrArg Resolution.outcome (hFails ⟨some "Object", []⟩ .empty _ rfl hFault)

end Heritage
