import Heritage.Table
import Mathlib.Data.List.Induction
import Mathlib.Data.List.Nodup

/-!
# Keys of tables

* `Table.find?_eq_some_iff`, `Table.find?_isSome_iff`: what a list of pairs holds for a key;
* `Table.put_of_not_mem`: a new key is written at the end;
* `Table.entries_ofList`: a table made from pairs with distinct keys holds just these pairs.
-/

namespace Heritage.Table

variable {κ α : Type} [DecidableEq κ] {key : κ} {value : α} {pairs : List (κ × α)}

theorem find?_eq_find? (key : κ) (pairs : List (κ × α)) :
    find? key pairs = (pairs.find? (·.1 = key)).map Prod.snd := by
  induction pairs with
  | nil => rfl
  | cons first rest ih =>
    rw [find?, List.find?_cons, ih]
    by_cases hKey : first.1 = key <;> simp [hKey]

theorem find?_isSome_iff : (find? key pairs).isSome ↔ key ∈ pairs.map Prod.fst := by
  rw [find?_eq_find?, Option.isSome_map, List.find?_isSome, List.mem_map]
  simp only [decide_eq_true_eq]

theorem find?_eq_none_iff : find? key pairs = none ↔ key ∉ pairs.map Prod.fst := by
  rw [← find?_isSome_iff, Option.not_isSome_iff_eq_none]

theorem find?_eq_some_iff (hKeys : (pairs.map Prod.fst).Nodup) :
    find? key pairs = some value ↔ (key, value) ∈ pairs := by
  induction pairs with
  | nil => simp [find?]
  | cons first rest ih =>
    obtain ⟨k, old⟩ := first
    obtain ⟨hNew, hRest⟩ := List.nodup_cons.mp hKeys
    by_cases hKey : k = key
    · subst hKey
      have hNone : (k, value) ∉ rest := fun hMem =>
        hNew (List.mem_map.mpr ⟨_, hMem, rfl⟩)
      simp [find?, hNone, eq_comm]
    · simp [find?, hKey, Ne.symm hKey, ih hRest]

theorem put_of_not_mem (h : key ∉ pairs.map Prod.fst) (value : α) :
    put key value pairs = pairs ++ [(key, value)] := by
  induction pairs with
  | nil => rfl
  | cons first rest ih =>
    obtain ⟨k, old⟩ := first
    rw [List.map_cons, List.mem_cons, not_or] at h
    obtain ⟨hFirst, hRest⟩ := h
    have hKey : k ≠ key := Ne.symm hFirst
    rw [put, if_neg hKey, ih hRest, List.cons_append]

theorem entries_ofList (hKeys : (pairs.map Prod.fst).Nodup) : (ofList pairs).entries = pairs := by
  induction pairs using List.reverseRecOn with
  | nil => rfl
  | append_singleton front last ih =>
    have hParts := List.map_append ▸ hKeys
    obtain ⟨hFront, -, hApart⟩ := List.nodup_append.mp hParts
    have hNew : last.1 ∉ front.map Prod.fst := fun hMem => hApart _ hMem _ (by simp) rfl
    have hLast : ofList (front ++ [last]) = (ofList front).insert last.1 last.2 :=
      List.foldl_concat ..
    rw [hLast, insert, ih hFront, put_of_not_mem hNew]

end Heritage.Table
