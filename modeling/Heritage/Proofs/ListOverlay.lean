import Heritage.ListSetting
import Heritage.Proofs.Distinct

/-!
# List settings laid over one another

When a list extends another one, its entries are added one by one, and each is left out that an
entry before it equals. Equality belongs to the type of the entries. Each law of the overlay asks
for one law of equality and for no more than that.

* `ListSetting.firstEntries_append`, `ListSetting.foldl_addEntry_eq_self_iff`: lists can be added
  part by part, and when nothing new is added;
* `ListSetting.overlay_assoc_iff`: the grouping of overlays does not matter exactly if equality is
  transitive;
* `ListSetting.overlay_again_iff_refl`: what is laid over twice in a row counts once exactly if
  equality is reflexive;
* `ListSetting.overlay_again_iff`, `ListSetting.overlay_again_iff_of_partial`: which two settings
  have the second law whatever equality is, and when it is symmetric and transitive;
* `ListSetting.unset_overlay_eq_self_iff`: laid over what is unset, a setting stays as it is unless
  it extends by entries of which one equals a later one.

The last fact is why the laws are about the right-hand side only: a setting laid over itself need
not stay as it is.
-/

namespace Heritage

namespace ListSetting

variable {α : Type} [BEq α]

/-! ## Entries that come first -/

theorem addEntry_of_any {kept : List α} {entry : α} (h : kept.any (· == entry) = true) :
    addEntry kept entry = kept :=
  if_pos h

theorem addEntry_of_not_any {kept : List α} {entry : α} (h : kept.any (· == entry) = false) :
    addEntry kept entry = kept ++ [entry] := by
  rw [addEntry, h, if_neg Bool.false_ne_true]

theorem firstEntries_append (front back : List α) :
    firstEntries (front ++ back) = back.foldl addEntry (firstEntries front) :=
  List.foldl_append

theorem firstEntries_concat (entries : List α) (entry : α) :
    firstEntries (entries ++ [entry]) = addEntry (firstEntries entries) entry :=
  firstEntries_append entries [entry]

@[simp] theorem firstEntries_firstEntries (entries : List α) :
    firstEntries (firstEntries entries) = firstEntries entries := by
  induction entries using List.reverseRecOn with
  | nil => rfl
  | append_singleton entries entry ih =>
    rw [firstEntries_concat]
    cases h : (firstEntries entries).any (· == entry) with
    | true => rw [addEntry_of_any h, ih]
    | false => rw [addEntry_of_not_any h, firstEntries_concat, ih, addEntry_of_not_any h]

@[simp] theorem firstEntries_append_left (front back : List α) :
    firstEntries (firstEntries front ++ back) = firstEntries (front ++ back) := by
  rw [firstEntries_append, firstEntries_append, firstEntries_firstEntries]

/-- Every entry is kept, or one that equals it is. -/
theorem exists_firstEntries_of_mem {entries : List α} {entry : α} (h : entry ∈ entries) :
    ∃ kept ∈ firstEntries entries, kept = entry ∨ kept == entry := by
  induction entries using List.reverseRecOn with
  | nil => cases h
  | append_singleton entries last ih =>
    rw [firstEntries_concat]
    cases hLast : (firstEntries entries).any (· == last) with
    | true =>
      rw [addEntry_of_any hLast]
      rcases List.mem_append.mp h with hMem | hMem
      · exact ih hMem
      · obtain rfl := List.mem_singleton.mp hMem
        obtain ⟨kept, hKept, hEqual⟩ := List.any_eq_true.mp hLast
        exact ⟨kept, hKept, .inr hEqual⟩
    | false =>
      rw [addEntry_of_not_any hLast]
      rcases List.mem_append.mp h with hMem | hMem
      · obtain ⟨kept, hKept, hSame⟩ := ih hMem
        exact ⟨kept, List.mem_append_left _ hKept, hSame⟩
      · exact ⟨entry, List.mem_append_right _ hMem, .inl rfl⟩

theorem firstEntries_sublist (entries : List α) : (firstEntries entries).Sublist entries := by
  induction entries using List.reverseRecOn with
  | nil => exact List.Sublist.refl []
  | append_singleton entries entry ih =>
    rw [firstEntries_concat]
    cases h : (firstEntries entries).any (· == entry) with
    | true =>
      rw [addEntry_of_any h]
      exact ih.trans (List.sublist_append_left entries [entry])
    | false =>
      rw [addEntry_of_not_any h]
      exact ih.append (List.Sublist.refl [entry])

theorem isPrefix_foldl_addEntry (kept entries : List α) : kept <+: entries.foldl addEntry kept := by
  induction entries generalizing kept with
  | nil => exact List.prefix_rfl
  | cons entry rest ih =>
    refine List.IsPrefix.trans ?_ (ih (addEntry kept entry))
    cases h : kept.any (· == entry) with
    | true => exact ⟨[], by rw [List.append_nil, addEntry_of_any h]⟩
    | false =>
      rw [addEntry_of_not_any h]
      exact List.prefix_append kept [entry]

/-- Entries add nothing exactly if each of them equals one that is there. -/
theorem foldl_addEntry_eq_self_iff {kept entries : List α} :
    entries.foldl addEntry kept = kept ↔ ∀ entry ∈ entries, kept.any (· == entry) = true := by
  induction entries with
  | nil => simp
  | cons entry rest ih =>
    rw [List.foldl_cons, List.forall_mem_cons]
    cases h : kept.any (· == entry) with
    | true => rw [addEntry_of_any h, ih, and_iff_right rfl]
    | false =>
      -- what has been added stays, so the entries that are kept have become more
      refine iff_of_false (fun hSame => ?_) (by simp)
      have hMore := (isPrefix_foldl_addEntry (addEntry kept entry) rest).length_le
      rw [hSame, addEntry_of_not_any h, List.length_append] at hMore
      exact absurd hMore (by simp)

/-- All entries are kept if and only if none equals a later one. -/
theorem firstEntries_eq_self_iff {entries : List α} :
    firstEntries entries = entries ↔ entries.Pairwise fun early late => ¬ (early == late) := by
  induction entries using List.reverseRecOn with
  | nil => exact iff_of_true rfl .nil
  | append_singleton entries entry ih =>
    rw [firstEntries_concat, List.pairwise_append, ← ih]
    have hShort : (firstEntries entries).length ≤ entries.length :=
      (firstEntries_sublist entries).length_le
    cases h : (firstEntries entries).any (· == entry) with
    | true =>
      obtain ⟨kept, hKept, hEqual⟩ := List.any_eq_true.mp h
      rw [addEntry_of_any h]
      refine iff_of_false (fun hSame => ?_) fun hParts => ?_
      · rw [hSame, List.length_append] at hShort
        exact absurd hShort (by simp)
      · have hMem : kept ∈ entries := (firstEntries_sublist entries).subset hKept
        exact hParts.2.2 kept hMem entry List.mem_cons_self hEqual
    | false =>
      rw [addEntry_of_not_any h, List.append_left_inj]
      refine ⟨fun hSame => ⟨hSame, List.pairwise_singleton _ entry, ?_⟩, fun hParts => hParts.1⟩
      rintro early hEarly late hLate
      rw [List.mem_singleton.mp hLate]
      rw [hSame] at h
      exact List.any_eq_false.mp h early hEarly

theorem firstEntries_append_again_iff (front back : List α) :
    firstEntries (firstEntries (front ++ back) ++ back) = firstEntries (front ++ back) ↔
      ∀ entry ∈ back, (firstEntries (front ++ back)).any (· == entry) = true := by
  rw [firstEntries_append (firstEntries (front ++ back)) back, firstEntries_firstEntries,
    foldl_addEntry_eq_self_iff]

/-- If equality is transitive, it does not matter when entries are left out. -/
theorem firstEntries_append_right (hTrans : ∀ x y z : α, x == y → y == z → x == z)
    (front back : List α) :
    firstEntries (front ++ firstEntries back) = firstEntries (front ++ back) := by
  induction back using List.reverseRecOn with
  | nil => rfl
  | append_singleton back entry ih =>
    rw [← List.append_assoc, firstEntries_concat, firstEntries_concat]
    cases h : (firstEntries back).any (· == entry) with
    | false => rw [addEntry_of_not_any h, ← List.append_assoc, firstEntries_concat, ih]
    | true =>
      obtain ⟨other, hOther, hEqual⟩ := List.any_eq_true.mp h
      have hMem : other ∈ front ++ back :=
        List.mem_append_right front ((firstEntries_sublist back).subset hOther)
      obtain ⟨kept, hKept, hSame⟩ := exists_firstEntries_of_mem hMem
      have hLate : (firstEntries (front ++ back)).any (· == entry) = true := by
        refine List.any_eq_true.mpr ⟨kept, hKept, ?_⟩
        rcases hSame with rfl | hSame
        · exact hEqual
        · exact hTrans kept other entry hSame hEqual
      rw [addEntry_of_any h, addEntry_of_any hLate, ih]

/-- Where equal entries are the same, these are the first occurrences. -/
theorem firstEntries_eq_eraseDups [LawfulBEq α] (entries : List α) :
    firstEntries entries = entries.eraseDups := by
  induction entries using List.reverseRecOn with
  | nil => rfl
  | append_singleton entries entry ih =>
    rw [firstEntries_concat, ih]
    by_cases h : entry ∈ entries
    · have hAny : entries.eraseDups.any (· == entry) = true :=
        List.any_eq_true.mpr ⟨entry, List.mem_eraseDups.mpr h, beq_self_eq_true entry⟩
      rw [addEntry_of_any hAny, eraseDups_concat_of_mem h]
    · have hAny : entries.eraseDups.any (· == entry) = false := by
        refine List.any_eq_false.mpr fun other hOther hEqual => h ?_
        rw [← eq_of_beq hEqual]
        exact List.mem_eraseDups.mp hOther
      rw [addEntry_of_not_any hAny, eraseDups_concat_of_not_mem h]

/-! ## The laws of the overlay -/

/-- The entries that a setting adds to what it is laid over. -/
def appended : ListSetting α → List α
  | .extend items => items
  | _ => []

/-- Whether a setting does not extend by entries of which one equals a later one. The list of one
that replaces may have such entries. -/
def ExtendsOnce (setting : ListSetting α) : Prop :=
  setting.appended.Pairwise fun early late => ¬ (early == late)

theorem overlay_assoc_of_trans (hTrans : ∀ x y z : α, x == y → y == z → x == z)
    (a b c : ListSetting α) : (a.overlay b).overlay c = a.overlay (b.overlay c) := by
  cases c with
  | unset => simp
  | replace items => simp
  | extend items =>
    -- an entry is left out early in one grouping and late in the other
    have hLate := firstEntries_append_right hTrans
    cases b with
    | unset => cases a <;> simp [overlay, hLate]
    | replace others => cases a <;> simp [overlay]
    | extend others => cases a <;> simp [overlay, List.append_assoc, hLate]

/-- Three settings of one entry each show that equality has to be transitive: one grouping compares
the last entry with the first, the other one compares it with the second. -/
theorem trans_of_overlay_assoc
    (h : ∀ a b c : ListSetting α, (a.overlay b).overlay c = a.overlay (b.overlay c))
    {x y z : α} (hFirst : x == y) (hLast : y == z) : x == z := by
  have hSame := h (.extend [x]) (.extend [y]) (.extend [z])
  simpa [overlay, firstEntries, addEntry, hFirst, hLast] using hSame

theorem overlay_assoc_iff :
    (∀ a b c : ListSetting α, (a.overlay b).overlay c = a.overlay (b.overlay c)) ↔
      ∀ x y z : α, x == y → y == z → x == z :=
  ⟨fun h _ _ _ => trans_of_overlay_assoc h, overlay_assoc_of_trans⟩

theorem overlay_assoc [PartialEquivBEq α] (a b c : ListSetting α) :
    (a.overlay b).overlay c = a.overlay (b.overlay c) :=
  overlay_assoc_of_trans (fun _ _ _ => PartialEquivBEq.trans) a b c

/-- A setting counts once when it is laid over twice if and only if each entry that it appends
equals one of those that are there after the first time. -/
theorem overlay_again_iff (a b : ListSetting α) :
    (a.overlay b).overlay b = a.overlay b ↔
      ∀ entry ∈ b.appended, (a.overlay b).items.any (· == entry) = true := by
  cases b with
  | unset => simp [appended]
  | replace others => simp [appended]
  | extend others =>
    cases a with
    | unset =>
      rw [overlay, overlay, extend.injEq]
      exact firstEntries_append_again_iff [] others
    | replace inherited =>
      rw [overlay, overlay, replace.injEq]
      exact firstEntries_append_again_iff inherited others
    | extend inherited =>
      rw [overlay, overlay, extend.injEq]
      exact firstEntries_append_again_iff inherited others

/-- An entry that equals itself is there once it has been appended. -/
theorem any_items_overlay (a : ListSetting α) {b : ListSetting α} {entry : α}
    (hMem : entry ∈ b.appended) (hRefl : entry == entry) :
    (a.overlay b).items.any (· == entry) = true := by
  cases b with
  | unset => cases hMem
  | replace others => cases hMem
  | extend others =>
    have hAny : ∀ front : List α, (firstEntries (front ++ others)).any (· == entry) = true := by
      intro front
      obtain ⟨kept, hKept, hSame⟩ :=
        exists_firstEntries_of_mem (List.mem_append_right front hMem)
      refine List.any_eq_true.mpr ⟨kept, hKept, ?_⟩
      rcases hSame with rfl | hSame
      · exact hRefl
      · exact hSame
    cases a with
    | unset => exact hAny []
    | replace inherited => exact hAny inherited
    | extend inherited => exact hAny inherited

theorem overlay_again_of_refl {b : ListSetting α} (hRefl : ∀ entry ∈ b.appended, entry == entry)
    (a : ListSetting α) : (a.overlay b).overlay b = a.overlay b :=
  (overlay_again_iff a b).mpr fun entry hMem => any_items_overlay a hMem (hRefl entry hMem)

/-- Every setting counts once when it is laid over twice exactly if equality is reflexive. -/
theorem overlay_again_iff_refl :
    (∀ a b : ListSetting α, (a.overlay b).overlay b = a.overlay b) ↔ ∀ x : α, x == x := by
  refine ⟨fun h x => ?_, fun hRefl a b => overlay_again_of_refl (fun x _ => hRefl x) a⟩
  have hAny := (overlay_again_iff .unset (.extend [x])).mp (h _ _) x List.mem_cons_self
  simpa [overlay, ListSetting.items, firstEntries, addEntry] using hAny

theorem overlay_again_iff_of_partial [PartialEquivBEq α] (a b : ListSetting α) :
    (a.overlay b).overlay b = a.overlay b ↔ ∀ entry ∈ b.appended, entry == entry := by
  refine ⟨fun h entry hMem => ?_, fun hRefl => overlay_again_of_refl hRefl a⟩
  obtain ⟨kept, -, hEqual⟩ := List.any_eq_true.mp ((overlay_again_iff a b).mp h entry hMem)
  exact PartialEquivBEq.trans (PartialEquivBEq.symm hEqual) hEqual

theorem unset_overlay_eq_self_iff (b : ListSetting α) : unset.overlay b = b ↔ b.ExtendsOnce := by
  cases b with
  | unset => exact iff_of_true rfl .nil
  | replace others => exact iff_of_true rfl .nil
  | extend others =>
    rw [overlay, extend.injEq]
    exact firstEntries_eq_self_iff

end ListSetting

end Heritage
