import Mathlib.Data.List.Basic
import Mathlib.Data.List.Induction
import Mathlib.Data.List.Nodup

/-!
# Distinct elements of a list

`List.eraseDups` keeps the first occurrence of every element. These are the laws that are needed of
it, and two ways to cut a list.

* `eraseDups_concat_of_mem`, `eraseDups_concat_of_not_mem`: an element at the end counts if it has
  not come before;
* `filter_not_eq_dropWhile`: when a property is handed down to all earlier elements, what lacks it
  is the tail behind the longest initial part that has it.
-/

namespace Heritage

variable {α β : Type}

/-! ## First occurrences -/

section

variable [BEq α] [LawfulBEq α] [BEq β] [LawfulBEq β]

theorem eraseDups_concat_of_mem {l : List α} {a : α} (h : a ∈ l) :
    (l ++ [a]).eraseDups = l.eraseDups := by
  rw [List.eraseDups_append]
  have hNone : [a].removeAll l = [] := by simp [List.removeAll, h]
  simp [hNone]

theorem eraseDups_concat_of_not_mem {l : List α} {a : α} (h : a ∉ l) :
    (l ++ [a]).eraseDups = l.eraseDups ++ [a] := by
  rw [List.eraseDups_append]
  have hOne : [a].removeAll l = [a] := by simp [List.removeAll, h]
  simp [hOne, List.eraseDups_cons]

theorem eraseDups_sublist (l : List α) : l.eraseDups.Sublist l := by
  induction l using List.reverseRecOn with
  | nil => simp
  | append_singleton l a ih =>
    by_cases h : a ∈ l
    · rw [eraseDups_concat_of_mem h]
      exact ih.trans (List.sublist_append_left l [a])
    · rw [eraseDups_concat_of_not_mem h]
      exact ih.append (List.Sublist.refl [a])

theorem eraseDups_nodup (l : List α) : l.eraseDups.Nodup := by
  induction l using List.reverseRecOn with
  | nil => simp
  | append_singleton l a ih =>
    by_cases h : a ∈ l
    · rw [eraseDups_concat_of_mem h]
      exact ih
    · rw [eraseDups_concat_of_not_mem h]
      refine List.nodup_append.mpr ⟨ih, List.nodup_singleton a, ?_⟩
      rintro b hb other hOther rfl
      exact h (List.mem_singleton.mp hOther ▸ List.mem_eraseDups.mp hb)

theorem eraseDups_of_nodup {l : List α} (h : l.Nodup) : l.eraseDups = l := by
  induction l using List.reverseRecOn with
  | nil => rfl
  | append_singleton l a ih =>
    have hParts := List.nodup_append.mp h
    have hNew : a ∉ l := fun hMem => hParts.2.2 a hMem a (by simp) rfl
    rw [eraseDups_concat_of_not_mem hNew, ih hParts.1]

@[simp] theorem eraseDups_eraseDups (l : List α) : l.eraseDups.eraseDups = l.eraseDups :=
  eraseDups_of_nodup (eraseDups_nodup l)

@[simp] theorem eraseDups_append_left (front back : List α) :
    (front.eraseDups ++ back).eraseDups = (front ++ back).eraseDups := by
  induction back using List.reverseRecOn with
  | nil => simp
  | append_singleton back a ih =>
    rw [← List.append_assoc, ← List.append_assoc]
    by_cases h : a ∈ front ++ back
    · have hKept : a ∈ front.eraseDups ++ back := by simpa using h
      rw [eraseDups_concat_of_mem h, eraseDups_concat_of_mem hKept, ih]
    · have hNew : a ∉ front.eraseDups ++ back := by simpa using h
      rw [eraseDups_concat_of_not_mem h, eraseDups_concat_of_not_mem hNew, ih]

theorem eraseDups_filter (p : α → Bool) (l : List α) :
    (l.filter p).eraseDups = l.eraseDups.filter p := by
  induction l using List.reverseRecOn with
  | nil => rfl
  | append_singleton l a ih =>
    rw [List.filter_append]
    by_cases hp : p a
    · by_cases h : a ∈ l
      · have hKept : a ∈ l.filter p := List.mem_filter.mpr ⟨h, hp⟩
        simp only [List.filter_cons, hp, if_true, List.filter_nil,
          eraseDups_concat_of_mem h, eraseDups_concat_of_mem hKept, ih]
      · have hNew : a ∉ l.filter p := fun hMem => h (List.mem_of_mem_filter hMem)
        simp [hp, eraseDups_concat_of_not_mem h, eraseDups_concat_of_not_mem hNew, ih]
    · by_cases h : a ∈ l
      · simp [hp, eraseDups_concat_of_mem h, ih]
      · simp [hp, eraseDups_concat_of_not_mem h, ih]

/-- A map that tells the elements of a list apart keeps the first occurrences. -/
theorem eraseDups_map {f : α → β} {l : List α}
    (hf : ∀ a ∈ l, ∀ b ∈ l, f a = f b → a = b) : (l.map f).eraseDups = l.eraseDups.map f := by
  induction l using List.reverseRecOn with
  | nil => rfl
  | append_singleton l a ih =>
    have ih := ih fun a ha b hb => hf a (by simp [ha]) b (by simp [hb])
    rw [List.map_append, List.map_singleton]
    by_cases h : a ∈ l
    · rw [eraseDups_concat_of_mem h, eraseDups_concat_of_mem (List.mem_map_of_mem h), ih]
    · have hNew : f a ∉ l.map f := by
        intro hMem
        obtain ⟨b, hb, hEq⟩ := List.mem_map.mp hMem
        have : b = a := hf b (by simp [hb]) a (by simp) hEq
        exact h (this ▸ hb)
      rw [eraseDups_concat_of_not_mem h, eraseDups_concat_of_not_mem hNew, ih, List.map_append,
        List.map_singleton]

omit [BEq α] [LawfulBEq α] [BEq β] [LawfulBEq β] in
theorem getLast?_filterMap_concat (f : α → Option β) (l : List α) (a : α) :
    ((l ++ [a]).filterMap f).getLast? = (f a).or (l.filterMap f).getLast? := by
  rw [List.filterMap_append, List.getLast?_append]
  cases h : f a <;> simp [h]

omit [BEq β] [LawfulBEq β] in
/-- Elements that only repeat the one right before them do not change what is said last. -/
theorem getLast?_filterMap_eraseDups (f : α → Option β) {l : List α}
    (h : ∀ front a, front ++ [a] <+: l → a ∈ front → front.getLast? = some a) :
    (l.eraseDups.filterMap f).getLast? = (l.filterMap f).getLast? := by
  induction l using List.reverseRecOn with
  | nil => simp
  | append_singleton l a ih =>
    have ih := ih fun front b hFront => h front b (hFront.trans (List.prefix_append l [a]))
    by_cases ha : a ∈ l
    · obtain ⟨earlier, rfl⟩ := List.getLast?_eq_some_iff.mp (h l a List.prefix_rfl ha)
      rw [eraseDups_concat_of_mem ha, ih, getLast?_filterMap_concat f (earlier ++ [a]),
        getLast?_filterMap_concat, ← Option.or_assoc, Option.or_self]
    · rw [eraseDups_concat_of_not_mem ha, getLast?_filterMap_concat, getLast?_filterMap_concat, ih]

omit [BEq β] [LawfulBEq β] in
theorem findSome?_eraseDups (f : α → Option β) (l : List α) :
    l.eraseDups.findSome? f = l.findSome? f := by
  induction l using List.reverseRecOn with
  | nil => rfl
  | append_singleton l a ih =>
    by_cases h : a ∈ l
    · rw [eraseDups_concat_of_mem h, ih, List.findSome?_append]
      cases hFirst : l.findSome? f with
      | some b => rfl
      | none =>
        have ha : f a = none := List.findSome?_eq_none_iff.mp hFirst a h
        simp [ha]
    · rw [eraseDups_concat_of_not_mem h, List.findSome?_append, List.findSome?_append, ih]

end

/-! ## Cuts -/

theorem filter_not_eq_dropWhile {p : α → Bool} {l : List α}
    (h : l.Pairwise fun a b => p b → p a) : l.filter (fun a => !p a) = l.dropWhile p := by
  induction l with
  | nil => rfl
  | cons a l ih =>
    obtain ⟨hHead, hTail⟩ := List.pairwise_cons.mp h
    by_cases hp : p a
    · simp [hp, ih hTail]
    · have hRest : ∀ b ∈ l, (!p b) = true := by
        intro b hb
        have := mt (hHead b hb) hp
        simpa using this
      simp [hp, List.filter_eq_self.mpr hRest]

theorem findSome?_congr {f g : α → Option β} {l : List α} (h : ∀ a ∈ l, f a = g a) :
    l.findSome? f = l.findSome? g := by
  induction l with
  | nil => rfl
  | cons a l ih =>
    rw [List.findSome?_cons, List.findSome?_cons, h a List.mem_cons_self,
      ih fun b hb => h b (List.mem_cons_of_mem a hb)]

theorem takeWhile_congr {p q : α → Bool} {l : List α} (h : ∀ a ∈ l, p a = q a) :
    l.takeWhile p = l.takeWhile q := by
  induction l with
  | nil => rfl
  | cons a l ih =>
    rw [List.takeWhile_cons, List.takeWhile_cons, h a List.mem_cons_self,
      ih fun b hb => h b (List.mem_cons_of_mem a hb)]

/-- The elements of a list up to the first one with a property, that one included. -/
def through (p : α → Bool) : List α → List α
  | [] => []
  | a :: rest => if p a then [a] else a :: through p rest

theorem through_append_of_forall {p : α → Bool} {l : List α} (h : ∀ a ∈ l, p a = false)
    (rest : List α) : through p (l ++ rest) = l ++ through p rest := by
  induction l with
  | nil => rfl
  | cons a l ih =>
    have ha := h a List.mem_cons_self
    simp [through, ha, ih fun b hb => h b (List.mem_cons_of_mem a hb)]

theorem through_cons_of_pos {p : α → Bool} {a : α} (h : p a) (rest : List α) :
    through p (a :: rest) = [a] := by
  simp [through, h]

theorem through_congr {p q : α → Bool} {l : List α} (h : ∀ a ∈ l, p a = q a) :
    through p l = through q l := by
  induction l with
  | nil => rfl
  | cons a l ih =>
    rw [through, through, h a List.mem_cons_self, ih fun b hb => h b (List.mem_cons_of_mem a hb)]

theorem through_sublist (p : α → Bool) (l : List α) : (through p l).Sublist l := by
  induction l with
  | nil => exact List.Sublist.refl []
  | cons a l ih =>
    unfold through
    split
    · exact (List.nil_sublist l).cons_cons a
    · exact ih.cons_cons a

end Heritage
