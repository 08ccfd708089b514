import Heritage.DeclaredSource
import Mathlib.Data.List.Basic

/-!
# Folds of an extractor

How the fold of an extractor behaves when the nodes are cut in two, when a node fails, and when the
extractor knows types by their names only.

* `Extractor.foldFrom_append`: a fold goes on from where the first part has led to;
* `Extractor.foldFrom_eq_error_iff`: a fold fails as the first node that fails;
* `Extractor.ByName.step_eq`: to an extractor that knows types by name, nodes that agree by name are
  the same.
-/

namespace Heritage

/-- A node with nothing but the name of a type left. -/
def Node.byName : Node → Node
  | .type declared => .type ⟨declared.name, ""⟩
  | node => node

namespace Extractor

variable {F : Type} {e : Extractor F}

/-- What a type contributes follows from its name. -/
def ByName (e : Extractor F) : Prop :=
  ∀ a b : DeclaredType, a.name = b.name → e.ofType a = e.ofType b

/-- The failure to fetch a node, if there is one. -/
def failure? (e : Extractor F) (node : Node) : Option Failure :=
  match e.contribution node with
  | .ok _ => none
  | .error failure => some failure

/-- Whether fetching a node fails. -/
def fails (e : Extractor F) (node : Node) : Bool :=
  (e.failure? node).isSome

theorem step_eq_error_iff {parent : F} {node : Node} {failure : Failure} :
    e.step parent node = .error failure ↔ e.failure? node = some failure := by
  unfold step failure?
  cases e.contribution node <;> simp [Except.map]

theorem failure?_eq_none_of_step {parent next : F} {node : Node}
    (h : e.step parent node = .ok next) : e.failure? node = none := by
  unfold step at h
  unfold failure?
  cases hFetch : e.contribution node with
  | error failure => rw [hFetch] at h; cases h
  | ok child => rfl

theorem foldFrom_append (parent : F) (front back : List Node) :
    e.foldFrom parent (front ++ back) =
      match e.foldFrom parent front with
      | .error failure => .error failure
      | .ok next => e.foldFrom next back := by
  induction front generalizing parent with
  | nil => rfl
  | cons node rest ih =>
    rw [List.cons_append, foldFrom, foldFrom]
    cases e.step parent node with
    | error failure => rfl
    | ok next => exact ih next

theorem foldFrom_concat {parent next : F} {front : List Node}
    (h : e.foldFrom parent front = .ok next) (node : Node) :
    e.foldFrom parent (front ++ [node]) = e.step next node := by
  rw [foldFrom_append, h]
  simp only [foldFrom]
  cases e.step next node <;> rfl

theorem foldFrom_eq_error_iff {parent : F} {nodes : List Node} {failure : Failure} :
    e.foldFrom parent nodes = .error failure ↔ nodes.findSome? e.failure? = some failure := by
  induction nodes generalizing parent with
  | nil => simp [foldFrom]
  | cons node rest ih =>
    rw [foldFrom, List.findSome?_cons]
    cases hStep : e.step parent node with
    | error other =>
      have hFailure := step_eq_error_iff.mp hStep
      simp [hFailure]
    | ok next =>
      rw [failure?_eq_none_of_step hStep]
      exact ih

/-- Two extractors that make the same of every fragment at the nodes of a chain fold it alike. -/
theorem foldFrom_congr_of_step {e' : Extractor F} {nodes : List Node}
    (h : ∀ node ∈ nodes, ∀ parent, e.step parent node = e'.step parent node) (parent : F) :
    e.foldFrom parent nodes = e'.foldFrom parent nodes := by
  induction nodes generalizing parent with
  | nil => rfl
  | cons node rest ih =>
    rw [foldFrom, foldFrom, h node List.mem_cons_self]
    cases e'.step parent node with
    | error failure => rfl
    | ok next => exact ih (fun other hOther => h other (List.mem_cons_of_mem node hOther)) next

theorem step_congr {e' : Extractor F} (hMerge : e.merge = e'.merge) {node : Node}
    (h : e.contribution node = e'.contribution node) (parent : F) :
    e.step parent node = e'.step parent node := by
  rw [step, step, h]
  refine congrArg (fun apply => (e'.contribution node).map apply) (funext fun contributed => ?_)
  cases contributed with
  | none => rfl
  | some child => exact congrFun (congrFun hMerge parent) child

theorem ByName.contribution_eq (h : e.ByName) {node node' : Node}
    (hSame : node.byName = node'.byName) : e.contribution node = e.contribution node' := by
  cases node <;> cases node' <;> simp only [Node.byName, reduceCtorEq, Node.type.injEq,
    DeclaredType.mk.injEq, and_true, Node.package.injEq, Node.member.injEq] at hSame
  · rfl
  · rw [hSame]
  · exact h _ _ hSame
  · rw [hSame]

theorem ByName.step_eq (h : e.ByName) {node node' : Node} (hSame : node.byName = node'.byName)
    (parent : F) : e.step parent node = e.step parent node' := by
  rw [step, step, h.contribution_eq hSame]

theorem ByName.failure?_eq (h : e.ByName) {node node' : Node}
    (hSame : node.byName = node'.byName) : e.failure? node = e.failure? node' := by
  rw [failure?, failure?, h.contribution_eq hSame]

end Extractor

theorem DeclaredSource.extractor_byName {F : Type} [Declarable F] (s : DeclaredSource F) :
    s.extractor.ByName := by
  intro a b hSame
  simp only [extractor, Metadata.ofType?, hSame]

end Heritage
